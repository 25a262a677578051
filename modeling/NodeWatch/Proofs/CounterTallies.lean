import NodeWatch.Proofs.Chronicle
import NodeWatch.Proofs.JournalGrounds
import NodeWatch.Proofs.CounterPostings

/-! The counters against a tally. Whoever watches a run of an open client, action by action, sees
which reads bring an entry in, which entries go and what takes them, which recoveries begin and how
removals end; the counters show these numbers and no others, in every state that is reached. -/

namespace NodeWatch

/-- The outcome under which the result of a removal is to be counted. -/
def Verdict (result : Except Fault (List Entry)) : RemovalOutcome → Prop
  | .noop => result = .ok []
  | .ok => ∃ e es, result = .ok (e :: es)
  | .noWatcher => ∃ path kind, result = .error (.noWatcher path kind)
  | .failed => ∃ f, result = .error f ∧ ∀ path kind, f ≠ .noWatcher path kind

theorem verdict_iff {result : Except Fault (List Entry)} {o : RemovalOutcome} :
    Verdict result o ↔ o = Client.outcomeOf result := by
  rcases result with f | es
  · cases f <;> cases o <;> simp [Verdict, Client.outcomeOf, Fault.isNoWatcher]
  · cases es <;> cases o <;> simp [Verdict, Client.outcomeOf]

instance (result : Except Fault (List Entry)) (o : RemovalOutcome) : Decidable (Verdict result o) :=
  decidable_of_iff _ verdict_iff.symm

namespace Engine

/-- An action on a run, with the engine before and after it. -/
structure Moment where
  before : Engine
  action : Action
  after : Engine

/-- A run of an open client, with its moments, the latest first. -/
inductive Recounted (s : Engine) : List Moment → Engine → Prop
  | opening : Recounted s [] s
  | went {ms : List Moment} {t u : Engine} (a : Action) (recounted : Recounted s ms t)
    (opened : t.client.closed = false) (act : act a t = some u) :
    Recounted s (⟨t, a, u⟩ :: ms) u

namespace Moment

def party? (x : Moment) : Option Party :=
  x.action.party? x.before

/-- What the party at work has in hand, as it leaves it. -/
def work? (x : Moment) : Option Operation :=
  x.party?.bind fun p => (x.after.task? p).or (x.before.task? p)

/-- The entries that left the registry. -/
def gone (x : Moment) : Multiset Entry :=
  x.before.client.registry.live - x.after.client.registry.live

/-- The kind of the entry that a read brought into the registry. -/
def registered? (x : Moment) : Option Kind :=
  match x.work? with
  | some (.arming a _) =>
    if a.entry ∉ x.before.client.registry ∧ a.entry ∈ x.after.client.registry then
      some a.entry.kind
    else none
  | _ => none

/-- How many entries a notification of this type consumed. -/
def fired (x : Moment) (type : EventType) : Nat :=
  match x.action with
  | .begin (.notify e) => if e.type = type then x.gone.card else 0
  | _ => 0

/-- How many entries a removal took out. -/
def removed (x : Moment) : Nat :=
  match x.work? with
  | some (.removal ..) => x.gone.card
  | _ => 0

/-- How many entries went because the session expired. -/
def expired (x : Moment) : Nat :=
  match x.work? with
  | some (.session _) => x.gone.card
  | _ => 0

/-- The policy of the recovery that began. -/
def recovers? (x : Moment) : Option RecoveryPolicy :=
  match x.party?.bind x.before.task? with
  | some (.session .expired) => some x.before.client.settings.recovery
  | _ => none

/-- The removal that came to its end at this moment, and its result. -/
def ended? (x : Moment) : Option (RemovalRequest × Except Fault (List Entry)) :=
  x.party?.bind fun p => match (x.before.task? p).bind Operation.ending? with
    | some _ => none
    | none => (x.after.task? p).bind Operation.ending?

/-- A removal on a valid path ended, in this mode and with this outcome. -/
def Counts (x : Moment) (m : RemovalMode) (o : RemovalOutcome) : Prop :=
  ∃ y ∈ x.ended?, Path.isValid y.1.path = true ∧ y.1.mode = m ∧ Verdict y.2 o

instance (x : Moment) (m : RemovalMode) (o : RemovalOutcome) : Decidable (x.Counts m o) :=
  match h : x.ended? with
  | none => isFalse fun ⟨_, hy, _⟩ => by rw [h] at hy; cases hy
  | some y => decidable_of_iff (Path.isValid y.1.path = true ∧ y.1.mode = m ∧ Verdict y.2 o)
      ⟨fun hy => ⟨y, h, hy⟩, fun ⟨_, hz, hy⟩ => Option.some.inj (h.symm.trans hz) ▸ hy⟩

/-- What a moment adds to each counter. -/
def entered (x : Moment) : Meter → Nat
  | .registered k => if x.registered? = some k then 1 else 0
  | .triggered type => x.fired type
  | .recoveries p => if x.recovers? = some p then 1 else 0
  | .removals m o => if x.Counts m o then 1 else 0

end Moment

/-- What the counters ought to show after a run. -/
def tally (ms : List Moment) : Meter → Nat
  | .registered k => ms.countP fun x => x.registered? = some k
  | .triggered type => (ms.map fun x => x.fired type).sum
  | .recoveries p => ms.countP fun x => x.recovers? = some p
  | .removals m o => ms.countP fun x => x.Counts m o

theorem tally_cons (x : Moment) (ms : List Moment) (m : Meter) :
    tally (x :: ms) m = tally ms m + x.entered m := by
  cases m with
  | triggered => simp [tally, Moment.entered, add_comm]
  | registered | recoveries | removals => simp [tally, Moment.entered, List.countP_cons]

/-- What one action does to the operations and to the books. Unless it begins an operation or moves
one on, the party at work has at most what it had. -/
inductive Work (s : Engine) (a : Action) (t : Engine) : Prop
  | begun (p : Party) (o : Order) (taken : List BackgroundRemoval)
    (origin : s.Origin a p o taken) (party : a.party? s = some p) (free : s.task? p = none)
    (task : t.task? p = some (Operation.start o s.client).1)
    (client : t.client = (Operation.start o s.client).2)
  | moved (p : Party) (m : Move) (o o' : Operation) (action : a = actionOf p m)
    (task : s.task? p = some o) (move : o.move m p s.client = some (o', t.client))
    (after : t.task? p = some o' ∨ o' = .session .done ∧ t.task? p = none)
  | idle (kept : ∀ p, a.party? s = some p → t.task? p = none ∨ t.task? p = s.task? p)
    (unhanded : ∀ p, a.party? s = some p → p ≠ .remover → s.task? p = none)
    (unposted : s.client.Unposted t.client)

variable {s t : Engine} {a : Action}

theorem idle_of_worker (hc : t.calls = s.calls) (hl : t.listener = s.listener)
    (hw : t.worker.task? = none ∨ t.worker.task? = s.worker.task?)
    (hp : ∀ p, a.party? s = some p → p ≠ .remover → s.task? p = none)
    (hu : s.client.Unposted t.client) : Work s a t := by
  refine .idle (fun p _ => ?_) hp hu
  cases p with
  | caller id => exact .inr (congrArg (List.lookup id) hc)
  | remover => exact hw
  | listener => exact .inr (congrArg Listener.task? hl)

theorem idle_of_nobody (hp : a.party? s = none) (hu : s.client.Unposted t.client) : Work s a t :=
  .idle (by simp [hp]) (unhanded_of_nobody hp) hu

theorem idle_of_listener (hp : a.party? s = some .listener) (hl : s.listener = .idle)
    (hl' : t.listener.task? = none) (hu : s.client.Unposted t.client) : Work s a t := by
  refine .idle (fun p hq => .inl ?_) (unhanded_of_listener hp hl) hu
  rw [← Option.some.inj (hp.symm.trans hq)]
  exact hl'

theorem work (hs : s.Orderly) (ho : s.client.closed = false) (h : act a s = some t) :
    Work s a t := by
  have hrefl := Client.Unposted.refl s.client
  cases act_change ho h with
  | begun o held =>
    refine .begun _ o [] (.call o) rfl (task?_fresh hs) ?_ rfl
    rw [task?_begun hs, if_pos rfl]
  | moved p m o o' c action task move =>
    refine .moved p m o o' action task ?_ ((task?_put task move).1.imp id And.right)
    rw [client_put]
    exact move
  | concluded b r worker =>
    -- The removal was counted when it ended, before the worker looks at its result.
    refine idle_of_worker rfl rfl (.inl ?_) (unhanded_of_remover rfl) ?_
    · cases hb : b.callback <;> cases r <;> simp [Worker.conclude, hb, Worker.task?]
    · cases hb : b.callback <;> cases r <;>
        simp [Worker.conclude, hb, Client.Unposted.remark, Client.Unposted.refl]
  | reported f e sent c worker send =>
    have hc : c = (s.client.send .remover (.completion f e)).2 := by rw [send]
    refine idle_of_worker rfl rfl (.inl ?_) (unhanded_of_remover rfl) (hc ▸ .send _ _ _)
    cases sent <;> rfl
  | dispatched conduct d q dispatching take =>
    have hq : s.client.Unposted { s.client with deliveries := q } := ⟨rfl, rfl⟩
    exact idle_of_nobody rfl (hq.trans (.deliver conduct _ d))
  | silenced conduct silent => exact idle_of_nobody rfl ⟨rfl, rfl⟩
  | took b q worker take =>
    exact idle_of_worker rfl rfl (.inl rfl) (unhanded_of_remover rfl) ⟨rfl, rfl⟩
  | retired worker take orphaned =>
    exact idle_of_worker rfl rfl (.inl rfl) (unhanded_of_remover rfl) ⟨rfl, rfl⟩
  | undertook b worker opened =>
    have hst := Operation.start_remove opened b.request
    exact .begun .remover (.remove b.request) [b] (.removal b worker) rfl
      (by simp [task?, worker, Worker.task?]) (by rw [hst]; rfl) (by rw [hst])
  | stirred w action same =>
    refine idle_of_worker rfl rfl (.inr ?_) ?_ hrefl
    · generalize s.worker = w' at same
      cases same <;> rfl
    · rcases action with rfl | rfl
      · exact unhanded_of_remover rfl
      · exact unhanded_of_nobody rfl
  | lagged listener =>
    exact idle_of_listener rfl listener (by rw [listener]; rfl) (.remark _ _)
  | heard e es listener unread opened =>
    have hst : Operation.start (.session e) s.client =
        (.session (Session.start e s.client).1, (Session.start e s.client).2) := by
      simp [Operation.start, Session.startOpen, opened, Prod.map]
    refine .begun .listener (.session e) [] (.event e) rfl
      (by simp [task?, listener, Listener.task?]) ?_ (by rw [hst])
    rw [hst]
    cases e <;> rfl
  | deafened listener => exact idle_of_listener rfl listener rfl hrefl
  | performed d => exact idle_of_nobody rfl (.apply _ d)
  | fed | feedEnded | released => exact idle_of_nobody rfl hrefl
  | abandoned id o task => exact idle_of_nobody rfl ⟨rfl, rfl⟩
  | collected id o x task outcome => exact idle_of_nobody rfl hrefl

namespace Moment

variable {x : Moment} {p : Party}

/-- The books of one moment: each counter went up by what is to be seen, and so did the entries that
are live or were taken out. -/
structure Booked (x : Moment) : Prop where
  counted : ∀ m, x.after.client.ledger.count m = x.before.client.ledger.count m + x.entered m
  balance : x.before.client.registry.live.card +
      (x.entered (.registered .data) + x.entered (.registered .children)) =
    x.after.client.registry.live.card + ((EventType.all.map x.fired).sum + x.removed + x.expired)
  ended : ∀ r result, x.ended? = some (r, result) →
    x.entered = Removal.credit r (.done result)

theorem work?_of_party (hp : x.party? = some p) :
    x.work? = (x.after.task? p).or (x.before.task? p) := by
  rw [work?, hp, Option.bind_some]

theorem registered?_of_live (h : x.after.client.registry.live ≤ x.before.client.registry.live) :
    x.registered? = none := by
  unfold registered?
  split
  · refine if_neg fun ⟨hnew, hold⟩ => hnew ?_
    exact Registry.mem_live.mp (Multiset.mem_of_le h (Registry.mem_live.mpr hold))
  · rfl

theorem entered_registered
    (h : x.after.client.registry.live ≤ x.before.client.registry.live) (k : Kind) :
    x.entered (.registered k) = 0 :=
  if_neg (by simp [registered?_of_live h])

theorem card_gone (h : x.after.client.registry.live ≤ x.before.client.registry.live) :
    x.before.client.registry.live.card = x.after.client.registry.live.card + x.gone.card := by
  rw [gone, Multiset.card_sub h, Nat.add_sub_cancel' (Multiset.card_le_card h)]

theorem length_of_gone {es : List Entry}
    (h : x.before.client.registry.live = ↑es + x.after.client.registry.live) :
    x.gone.card = es.length := by
  have hcard := card_gone (h ▸ Multiset.le_add_left _ _)
  rw [h, Multiset.card_add, Multiset.coe_card] at hcard
  omega

/-- Nothing came in: what is to be seen is what was counted if it is so for each other counter. -/
theorem entered_eq {credit : Meter → Nat} (h : x.before.client.Credits credit x.after.client)
    (hregistered : ∀ k, credit (.registered k) = 0)
    (hfired : ∀ type, x.fired type = credit (.triggered type))
    (hrecoveries : ∀ p, x.entered (.recoveries p) = credit (.recoveries p))
    (hremovals : ∀ m o, x.entered (.removals m o) = credit (.removals m o)) :
    x.entered = credit := by
  funext m
  cases m with
  | registered k => rw [entered_registered h.live, hregistered]
  | triggered type => exact hfired type
  | removals m o => exact hremovals m o
  | recoveries p => exact hrecoveries p

/-- Nothing came in, what was counted is to be seen, and what went is told for. -/
theorem Booked.of_credits {credit : Meter → Nat}
    (h : x.before.client.Credits credit x.after.client) (hentered : x.entered = credit)
    (htold : (EventType.all.map x.fired).sum + x.removed + x.expired = x.gone.card)
    (hended : ∀ r result, x.ended? = some (r, result) → credit = Removal.credit r (.done result)) :
    x.Booked := by
  refine ⟨hentered ▸ h.counted, ?_, hentered ▸ hended⟩
  rw [entered_registered h.live, entered_registered h.live, htold]
  exact card_gone h.live

theorem card_gone_of_unposted (h : x.before.client.Unposted x.after.client) : x.gone.card = 0 := by
  have hcard := card_gone h.sheds.live
  rw [h.registry] at hcard
  omega

theorem fired_le (x : Moment) (type : EventType) : x.fired type ≤ x.gone.card := by
  unfold fired
  split
  · split
    · exact le_rfl
    · exact Nat.zero_le _
  · exact Nat.zero_le _

theorem fired_of_ne (h : ∀ e, x.action ≠ .begin (.notify e)) (type : EventType) :
    x.fired type = 0 := by
  unfold fired
  split
  · exact absurd ‹_› (h _)
  · rfl

theorem sum_fired (h : ∀ type, x.fired type = 0) : (EventType.all.map x.fired).sum = 0 := by
  simp [EventType.all, h]

theorem removed_le (x : Moment) : x.removed ≤ x.gone.card := by
  unfold removed
  split
  · exact le_rfl
  · exact Nat.zero_le _

theorem expired_le (x : Moment) : x.expired ≤ x.gone.card := by
  unfold expired
  split
  · exact le_rfl
  · exact Nat.zero_le _

theorem entered_recoveries (h : x.recovers? = none) (p : RecoveryPolicy) :
    x.entered (.recoveries p) = 0 :=
  if_neg (by simp [h])

theorem entered_removals (h : x.ended? = none) (m : RemovalMode) (o : RemovalOutcome) :
    x.entered (.removals m o) = 0 :=
  if_neg fun ⟨y, hy, _⟩ => by
    rw [h] at hy
    cases hy

/-- Where the books were not touched, no recovery begins and no removal ends. -/
theorem Booked.of_unposted (h : x.before.client.Unposted x.after.client)
    (hrecovers : x.recovers? = none) (hended : x.ended? = none) : x.Booked := by
  have hgone := card_gone_of_unposted h
  have hfired : ∀ type, x.fired type = 0 := fun type =>
    Nat.eq_zero_of_le_zero (hgone ▸ x.fired_le type)
  refine .of_credits h.sheds.credits (entered_eq h.sheds.credits (fun _ => rfl) hfired
    (entered_recoveries hrecovers) (entered_removals hended)) ?_ (by simp [hended])
  have hremoved := x.removed_le
  have hexpired := x.expired_le
  rw [sum_fired hfired]
  omega

theorem Booked.of_removal {r : RemovalRequest} {st : Removal.Stage}
    (h : x.before.client.Credits (Removal.credit r st) x.after.client)
    (hwork : ∃ st', x.work? = some (.removal r st'))
    (haction : ∀ e, x.action ≠ .begin (.notify e)) (hrecovers : x.recovers? = none)
    (hended : x.ended? = Operation.ending? (.removal r st)) : x.Booked := by
  obtain ⟨st', hw⟩ := hwork
  have hother : ∀ m, (∀ k o, m ≠ .removals k o) → Removal.credit r st m = 0 := fun m hm => by
    cases st with
    | done result => exact if_neg fun ⟨_, he⟩ => hm _ _ he
    | asking | confirming | checking | rearming => rfl
  refine .of_credits h (entered_eq h (fun k => hother _ (by simp)) (fun type => ?_) (fun p => ?_)
    fun m o => ?_) ?_ fun r' result he => ?_
  · rw [fired_of_ne haction, hother _ (by simp)]
  · rw [entered_recoveries hrecovers, hother _ (by simp)]
  · cases st with
    | done result =>
      refine if_congr ?_ rfl rfl
      rw [Counts, hended]
      refine ⟨?_, fun ⟨hvalid, he⟩ => ⟨_, rfl, hvalid, ?_⟩⟩
      · rintro ⟨y, hy, hvalid, rfl, hverdict⟩
        obtain rfl : (r, result) = y := Option.some.inj hy
        exact ⟨hvalid, by rw [verdict_iff.mp hverdict]⟩
      · obtain ⟨rfl, rfl⟩ := Meter.removals.inj he
        exact ⟨rfl, verdict_iff.mpr rfl⟩
    | asking | confirming | checking | rearming => exact entered_removals hended m o
  · rw [sum_fired (fired_of_ne haction)]
    simp [removed, expired, hw]
  · rw [hended] at he
    cases st with
    | done result =>
      cases he
      rfl
    | asking | confirming | checking | rearming => cases he

theorem Booked.of_session {st : Session.Stage}
    (h : x.before.client.Credits (Session.credit x.before.client st) x.after.client)
    (hwork : ∃ st', x.work? = some (.session st')) (haction : ∀ e, x.action ≠ .begin (.notify e))
    (hparty : x.party?.bind x.before.task? = some (.session st))
    (hended : x.ended? = none) : x.Booked := by
  obtain ⟨st', hw⟩ := hwork
  have hother : ∀ m, (∀ p, m ≠ .recoveries p) → Session.credit x.before.client st m = 0 :=
    fun m hm => by
      cases st with
      | expired => exact if_neg fun he => hm _ he
      | _ => rfl
  refine .of_credits h (entered_eq h (fun k => hother _ (by simp)) (fun type => ?_) (fun p => ?_)
    fun m o => ?_) ?_ (by simp [hended])
  · rw [fired_of_ne haction, hother _ (by simp)]
  · cases st with
    | expired =>
      refine if_congr ?_ rfl rfl
      simp [recovers?, hparty, eq_comm]
    | _ => exact entered_recoveries (by simp [recovers?, hparty]) p
  · rw [entered_removals hended, hother _ (by simp)]
  · rw [sum_fired (fired_of_ne haction)]
    simp [removed, expired, hw]

theorem Booked.of_notify {e : WatchedEvent}
    (h : x.before.client.Credits (fun m => if m = .triggered e.type then x.gone.card else 0)
      x.after.client)
    (haction : x.action = .begin (.notify e)) (hwork : ∃ st, x.work? = some (.notification st))
    (hrecovers : x.recovers? = none) (hended : x.ended? = none) : x.Booked := by
  obtain ⟨st, hw⟩ := hwork
  have hfired : ∀ type, x.fired type = if type = e.type then x.gone.card else 0 := fun type => by
    simp only [fired, haction, eq_comm]
  refine .of_credits h (entered_eq h (fun k => if_neg (by simp)) (fun type => ?_) (fun p => ?_)
    fun m o => ?_) ?_ (by simp [hended])
  · rw [hfired]
    exact if_congr (by simp) rfl rfl
  · rw [entered_recoveries hrecovers, if_neg (by simp)]
  · rw [entered_removals hended, if_neg (by simp)]
  · have hsum : (EventType.all.map x.fired).sum = x.gone.card := by
      cases ht : e.type <;> simp [EventType.all, hfired, ht]
    simp [removed, expired, hw, hsum]

theorem Booked.of_arming {b : Arming} (h : x.after.client = x.before.client.arm b.entry)
    (haction : ∀ e, x.action ≠ .begin (.notify e)) (hwork : ∃ st, x.work? = some (.arming b st))
    (hrecovers : x.recovers? = none) (hended : x.ended? = none) : x.Booked := by
  obtain ⟨st, hw⟩ := hwork
  by_cases he : b.entry ∈ x.before.client.registry
  · rw [Client.arm_of_mem he] at h
    exact .of_unposted (h ▸ .refl _) hrecovers hended
  · -- The one way in: the registry grows, which `Booked.of_credits` does not allow for.
    have hbooks := Client.books_arm x.before.client b.entry
    rw [← h, if_neg he, Multiset.singleton_add] at hbooks
    have hin : b.entry ∈ x.after.client.registry :=
      Registry.mem_live.mp (hbooks ▸ Multiset.mem_cons_self _ _)
    have hregistered : x.registered? = some b.entry.kind := by
      simp only [registered?, hw]
      exact if_pos ⟨he, hin⟩
    refine ⟨fun m => ?_, ?_, by simp [hended]⟩
    · rw [h, Client.arm_of_not_mem he]
      refine (Ledger.count_add _ _ _ _).trans ?_
      cases m with
      | registered k =>
        simp only [entered, hregistered, Option.some.injEq, Meter.registered.injEq,
          eq_comm (a := k)]
        split <;> rfl
      | triggered type => simp [entered, fired_of_ne haction]
      | removals m o => simp [entered_removals hended]
      | recoveries p => simp [entered_recoveries hrecovers]
    · rw [sum_fired (fired_of_ne haction), hbooks, Multiset.card_cons]
      have hkinds : x.entered (.registered .data) + x.entered (.registered .children) = 1 := by
        cases hk : b.entry.kind <;> simp [entered, hregistered, hk]
      simp [removed, expired, hw, hkinds]

theorem not_begin_actionOf (p : Party) (m : Move) (o : Order) : actionOf p m ≠ .begin o := by
  cases m <;> exact fun h => by cases h

theorem seen_of_begun (hp : x.party? = some p) (hfree : x.before.task? p = none) {o : Operation}
    (htask : x.after.task? p = some o) :
    x.work? = some o ∧ x.recovers? = none ∧ x.ended? = o.ending? := by
  refine ⟨?_, ?_, ?_⟩
  · rw [work?_of_party hp, htask]
    rfl
  · rw [recovers?, hp, Option.bind_some, hfree]
  · rw [ended?, hp, Option.bind_some, hfree, htask]
    rfl

theorem seen_of_moved (hp : x.party? = some p) {o o' : Operation} (htask : x.before.task? p = some o)
    {m : Move} {c : Client} (hmove : o.move m p x.before.client = some (o', c))
    (hafter : x.after.task? p = some o' ∨ o' = .session .done ∧ x.after.task? p = none) :
    (x.work? = some o' ∨ x.work? = some o) ∧ x.party?.bind x.before.task? = some o ∧
      x.ended? = o'.ending? := by
  -- A removal makes no move after its end, so its end is seen at one moment only.
  have hgoing : o.ending? = none := by
    cases o with
    | removal r st =>
      cases st with
      | done result =>
        have hfinished : (Operation.removal r (.done result)).Finished := rfl
        rw [Operation.move_of_finished hfinished] at hmove
        cases hmove
      | asking | confirming | checking | rearming => rfl
    | arming | enrolment | notification | session => rfl
  refine ⟨?_, ?_, ?_⟩
  · rw [work?_of_party hp, htask]
    exact hafter.imp (fun h => by rw [h]; rfl) fun h => by rw [h.2]; rfl
  · rw [hp, Option.bind_some, htask]
  · rw [ended?, hp, Option.bind_some, htask, Option.bind_some, hgoing]
    rcases hafter with h | ⟨rfl, h⟩
    · rw [h, Option.bind_some]
    · rw [h]
      rfl

theorem booked_begun {o : Order} {taken : List BackgroundRemoval} (ho : s.client.closed = false)
    (origin : s.Origin a p o taken) (party : a.party? s = some p) (free : s.task? p = none)
    (task : t.task? p = some (Operation.start o s.client).1)
    (client : t.client = (Operation.start o s.client).2) : Booked ⟨s, a, t⟩ := by
  have hseen : (⟨s, a, t⟩ : Moment).party? = some p := party
  obtain ⟨hwork, hrecovers, hended⟩ := seen_of_begun hseen free task
  have hstart := Operation.started o s.client
  generalize Operation.start o s.client = y at hstart hwork hended client
  cases hstart with
  | unread | unenrolled | offering | announced =>
    exact .of_unposted (client ▸ .refl s.client) hrecovers hended
  | asked => exact .of_unposted (client ▸ .note s.client _) hrecovers hended
  | removing r =>
    refine .of_removal (client ▸ Removal.credits_start r s.client) ⟨_, hwork⟩ (fun e he => ?_)
      hrecovers hended
    obtain rfl : a = .begin (.notify e) := he
    cases origin
  | fired e path =>
    obtain rfl : a = .begin (.notify e) := by
      cases origin
      rfl
    obtain ⟨hcredits, hlive⟩ := Client.credits_fire s.client path e
    replace client : t.client = (s.client.fire path e).2 := client
    rw [← client] at hcredits hlive
    rw [← length_of_gone (x := ⟨s, _, t⟩) hlive] at hcredits
    exact .of_notify hcredits rfl ⟨_, hwork⟩ hrecovers hended
  | handling e => exact .of_unposted (client ▸ Session.unposted_start e s.client) hrecovers hended
  | unremoved _ shut | ignored _ shut | unhandled _ shut =>
    rw [ho] at shut
    cases shut

theorem booked_moved {m : Move} {o o' : Operation} {c : Client} (hg : s.Grounded)
    (task : s.task? p = some o) (move : o.move m p s.client = some (o', c)) (client : t.client = c)
    (after : t.task? p = some o' ∨ o' = .session .done ∧ t.task? p = none) :
    Booked ⟨s, actionOf p m, t⟩ := by
  have hp : (⟨s, actionOf p m, t⟩ : Moment).party? = some p := party?_actionOf s p m
  have haction : ∀ e, actionOf p m ≠ .begin (.notify e) := fun e => not_begin_actionOf p m _
  obtain ⟨hwork, hhand, hended⟩ := seen_of_moved hp task move after
  have hrecovers : (∀ st, o ≠ .session st) → (⟨s, actionOf p m, t⟩ : Moment).recovers? = none := by
    intro hne
    rw [recovers?, hhand]
    split
    · rename_i he
      exact absurd (Option.some.inj he) (hne _)
    · rfl
  have hchecked := (hg.tasks p o task).checked
  cases Operation.moves move with
  | failed b f => exact .of_unposted (client ▸ .refl _) (hrecovers (by simp)) hended
  | armed b y =>
    exact .of_arming client haction (hwork.elim (⟨_, ·⟩) (⟨_, ·⟩)) (hrecovers (by simp)) hended
  | removing r st st' c' resume =>
    have hvalid : Path.isValid r.path = true := by
      cases st with
      | done result => cases resume
      | _ => exact Path.isValid_of_validate hchecked
    exact .of_removal (client ▸ Removal.credits_resume hvalid resume)
      (hwork.elim (⟨_, ·⟩) (⟨_, ·⟩)) haction (hrecovers (by simp)) hended
  | settling r slot y st st' c' answer =>
    exact .of_removal (client ▸ Removal.credits_answer answer)
      (hwork.elim (⟨_, ·⟩) (⟨_, ·⟩)) haction (hrecovers (by simp)) hended
  | refused b => exact .of_unposted (client ▸ .refl _) (hrecovers (by simp)) hended
  | enrolled b q offer => exact .of_unposted (client ▸ ⟨rfl, rfl⟩) (hrecovers (by simp)) hended
  | lining b q offer => exact .of_unposted (client ▸ ⟨rfl, rfl⟩) (hrecovers (by simp)) hended
  | notified => exact .of_unposted (client ▸ .refl _) (hrecovers (by simp)) hended
  | notifying d ds => exact .of_unposted (client ▸ .send _ p d) (hrecovers (by simp)) hended
  | handling st st' c' resume =>
    exact .of_session (client ▸ Session.credits_resume resume) (hwork.elim (⟨_, ·⟩) (⟨_, ·⟩))
      haction hhand hended
  | answered slot y st st' c' answer =>
    have hcredits := Session.credits_update answer (.of_remarked (Session.remarked_answer answer))
    exact .of_session (client ▸ hcredits) (hwork.elim (⟨_, ·⟩) (⟨_, ·⟩)) haction hhand hended
  | timedOut slot st st' c' timeOut =>
    have hcredits := Session.credits_update timeOut (.of_remarked (Session.remarked_timeOut timeOut))
    exact .of_session (client ▸ hcredits) (hwork.elim (⟨_, ·⟩) (⟨_, ·⟩)) haction hhand hended
  | retried slot st st' c' retry =>
    obtain ⟨q, rfl⟩ := Session.submitted_retry retry
    have hcredits := Session.credits_update retry (.note _ _)
    exact .of_session (client ▸ hcredits) (hwork.elim (⟨_, ·⟩) (⟨_, ·⟩)) haction hhand hended

/-- Whatever is done on an open client, the books are right. -/
theorem booked (hs : s.Orderly) (hg : s.Grounded) (ho : s.client.closed = false)
    (h : act a s = some t) : Booked ⟨s, a, t⟩ := by
  cases work hs ho h with
  | begun p o taken origin party free task client =>
    exact booked_begun ho origin party free task client
  | moved p m o o' action task move after =>
    subst action
    exact booked_moved hg task move rfl after
  | idle kept unhanded unposted =>
    have hrecovers : (⟨s, a, t⟩ : Moment).recovers? = none := by
      unfold recovers?
      split
      · rename_i he
        obtain ⟨p, hp, htask⟩ := Option.bind_eq_some_iff.mp he
        by_cases hr : p = .remover
        · subst hr
          obtain ⟨r, st, ho⟩ := task?_remover htask
          cases ho
        · cases (unhanded p hp hr).symm.trans htask
      · rfl
    have hended : (⟨s, a, t⟩ : Moment).ended? = none := by
      refine Option.bind_eq_none_iff.mpr fun p hp => ?_
      split
      · rfl
      · rename_i hgoing
        rcases kept p hp with hk | hk
        · exact hk ▸ rfl
        · exact hk ▸ hgoing
    exact .of_unposted unposted hrecovers hended

end Moment

variable {settings : Settings} {feed : Option Nat} {ms : List Moment}

namespace Recounted

theorem reachable (hs : build settings feed = .built s) (h : Recounted s ms t) :
    Reachable settings feed t := by
  induction h with
  | opening => exact .built hs
  | went a recounted opened act ih => exact .step a ih act

theorem booked (hs : build settings feed = .built s) (h : Recounted s ms t) :
    ∀ x ∈ ms, x.Booked := by
  induction h with
  | opening => exact fun x hx => absurd hx List.not_mem_nil
  | went a recounted opened act ih =>
    have hr := reachable hs recounted
    exact List.forall_mem_cons.mpr ⟨Moment.booked hr.orderly hr.grounded opened act, ih⟩

theorem count_eq (hs : build settings feed = .built s) (h : Recounted s ms t) (m : Meter) :
    t.client.ledger.count m = tally ms m := by
  induction h with
  | opening =>
    obtain ⟨d, r, _, _, rfl⟩ := build_eq hs
    cases m <;> rfl
  | went a recounted opened act ih =>
    have hb := booked hs (recounted.went a opened act) _ (.head _)
    rw [tally_cons, ← ih]
    exact hb.counted m

theorem tally_balance (hs : build settings feed = .built s) (h : Recounted s ms t) :
    tally ms (.registered .data) + tally ms (.registered .children) =
      (EventType.all.map fun type => tally ms (.triggered type)).sum + t.client.registry.live.card +
        (ms.map Moment.removed).sum + (ms.map Moment.expired).sum := by
  induction h with
  | opening =>
    obtain ⟨d, r, _, _, rfl⟩ := build_eq hs
    have hempty : (initial settings d r feed).client.registry.live = 0 := Registry.live_empty
    rw [hempty]
    rfl
  | @went ms t u a recounted opened act ih =>
    have hbalance := (booked hs (recounted.went a opened act) _ (.head _)).balance
    have hfired : (EventType.all.map fun type => tally (⟨t, a, u⟩ :: ms) (.triggered type)).sum =
        (EventType.all.map fun type => tally ms (.triggered type)).sum +
          (EventType.all.map (Moment.mk t a u).fired).sum := by
      simp only [tally_cons, EventType.all, List.map_cons, List.map_nil, List.sum_cons,
        List.sum_nil, Moment.entered]
      omega
    rw [hfired, tally_cons, tally_cons, List.map_cons, List.map_cons, List.sum_cons, List.sum_cons]
    dsimp only at hbalance
    omega

end Recounted

/-- The counters of a client that was open so far show what was to be seen: the entries that reads
brought in by kind, the entries that notifications consumed by type, the recoveries that began by
policy, and the ends of removals by mode and outcome. The end of a removal counts once, under one
outcome, if its path is valid, and otherwise not at all. What was registered and not consumed by an
event is live, or was taken out by a removal or because the session expired. -/
theorem counters_show_tally (hs : build settings feed = .built s) (h : Recounted s ms t) :
    (∀ m, t.client.ledger.count m = tally ms m) ∧
      (∀ x ∈ ms, ∀ r result, x.ended? = some (r, result) →
        (Path.isValid r.path = true → ∃! o, Verdict result o ∧ ∀ m,
          x.after.client.ledger.count m =
            x.before.client.ledger.count m + if m = .removals r.mode o then 1 else 0) ∧
        (Path.isValid r.path = false → x.after.client.ledger = x.before.client.ledger)) ∧
      t.client.ledger.count (.registered .data) + t.client.ledger.count (.registered .children) =
        (EventType.all.map fun type => t.client.ledger.count (.triggered type)).sum +
          t.client.registry.live.card + (ms.map Moment.removed).sum +
          (ms.map Moment.expired).sum := by
  refine ⟨h.count_eq hs, fun x hx r result he => ⟨fun hvalid => ?_, fun hinvalid => ?_⟩, ?_⟩
  · have hb := h.booked hs x hx
    refine ⟨Client.outcomeOf result, ⟨verdict_iff.mpr rfl, fun m => ?_⟩,
      fun o ⟨ho, _⟩ => verdict_iff.mp ho⟩
    rw [hb.counted, hb.ended r result he]
    simp [Removal.credit, hvalid]
  · have hb := h.booked hs x hx
    have hcount : x.after.client.ledger.count = x.before.client.ledger.count := by
      funext m
      rw [hb.counted, hb.ended r result he]
      simp [Removal.credit, hinvalid]
    exact congrArg Ledger.mk hcount
  · simp only [h.count_eq hs]
    exact h.tally_balance hs

/-- The moments of a run of these actions after others, if each is possible on an open client. -/
def recount : List Action → List Moment → Engine → Option (List Moment × Engine)
  | [], ms, s => some (ms, s)
  | a :: as, ms, s =>
    if s.client.closed then none else (act a s).bind fun t => recount as (⟨s, a, t⟩ :: ms) t

theorem recounted_of_recount {as : List Action} {ms' : List Moment} {u : Engine}
    (hm : Recounted s ms t) (h : recount as ms t = some (ms', u)) : Recounted s ms' u := by
  induction as generalizing ms t with
  | nil =>
    obtain ⟨rfl, rfl⟩ := Prod.mk.inj (Option.some.inj h)
    exact hm
  | cons a as ih =>
    simp only [recount] at h
    split at h
    · cases h
    · rename_i ho
      obtain ⟨v, hv, h⟩ := Option.bind_eq_some_iff.mp h
      exact ih (hm.went a (by simpa using ho) hv) h

/-- Five reads bring in four entries: an event consumes two of them, a removal takes one, and the
session expires under the last. Two more removals find nothing and no path. -/
theorem four_entries_tallied :
    ∃ s ms t, build { recovery := .dropAll } none = .built s ∧ Recounted s ms t ∧
      tally ms (.registered .data) = 4 ∧ tally ms (.triggered .nodeDataChanged) = 2 ∧
      tally ms (.removals .registryOnly .ok) = 1 ∧
      tally ms (.removals .registryOnly .noWatcher) = 1 ∧ tally ms (.recoveries .dropAll) = 1 ∧
      (ms.filterMap Moment.ended?).map (fun y => Path.isValid y.1.path) = [false, true, true] ∧
      (∀ m, t.client.ledger.count m = tally ms m) ∧
      t.client.ledger.count (.registered .data) + t.client.ledger.count (.registered .children) =
        (EventType.all.map fun type => t.client.ledger.count (.triggered type)).sum +
          t.client.registry.live.card + (ms.map Moment.removed).sum +
          (ms.map Moment.expired).sum := by
  have hb : build { recovery := .dropAll } none = .built
      (initial { recovery := .dropAll } ⟨1024, [], [], [], true⟩ ⟨256, [], [], [], true⟩ none) := rfl
  have hrun : (recount [.begin (.arm ⟨.presence, "/a", .watcher (.named "v")⟩),
      .answer (.caller 0) 0 (.ok (.presence true)),
      .begin (.arm ⟨.presence, "/a", .watcher (.named "w")⟩),
      .begin (.arm ⟨.presence, "/a", .watcher (.named "w")⟩),
      .answer (.caller 2) 0 (.ok (.presence true)), .answer (.caller 1) 0 (.ok (.presence true)),
      .begin (.arm ⟨.presence, "/b", .watcher (.named "v")⟩),
      .answer (.caller 3) 0 (.ok (.presence true)),
      .begin (.arm ⟨.presence, "/c", .watcher (.named "v")⟩),
      .answer (.caller 4) 0 (.ok (.presence true)),
      .begin (.notify ⟨.nodeDataChanged, .syncConnected, some "/a"⟩),
      .begin (.remove ⟨"/b", .any, .all, true, false⟩), .resume (.caller 6), .resume (.caller 6),
      .begin (.remove ⟨"/b", .any, .all, true, false⟩), .resume (.caller 6),
      .begin (.remove ⟨"b", .any, .all, true, false⟩),
      .begin (.session .expired), .resume (.caller 9), .resume (.caller 9)] []
        (initial { recovery := .dropAll } ⟨1024, [], [], [], true⟩ ⟨256, [], [], [], true⟩
          none)).any (fun y => decide (
      tally y.1 (.registered .data) = 4 ∧ tally y.1 (.triggered .nodeDataChanged) = 2 ∧
      tally y.1 (.removals .registryOnly .ok) = 1 ∧
      tally y.1 (.removals .registryOnly .noWatcher) = 1 ∧ tally y.1 (.recoveries .dropAll) = 1 ∧
      (y.1.filterMap Moment.ended?).map (fun z => Path.isValid z.1.path) = [false, true, true])) =
        true := by
    decide +kernel
  obtain ⟨⟨ms, t⟩, ht, hshown⟩ := (Option.any_eq_true _ _).mp hrun
  obtain ⟨h₁, h₂, h₃, h₄, h₅, h₆⟩ := of_decide_eq_true hshown
  have hr := recounted_of_recount .opening ht
  obtain ⟨hcount, _, hbalance⟩ := counters_show_tally hb hr
  exact ⟨_, ms, t, hb, hr, h₁, h₂, h₃, h₄, h₅, h₆, hcount, hbalance⟩

end Engine

end NodeWatch
