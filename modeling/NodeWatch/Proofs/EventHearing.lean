import NodeWatch.Proofs.ConnectionFlag
import NodeWatch.Proofs.ExpiryRun

/-! What an action bears on the session, when events reach the client through the feed alone. The
listener takes an event up or goes on with the one in hand, the feed is sent an event or ended, and
whatever else is done, no event and no recovery begins. -/

namespace NodeWatch

namespace Occurrence

def event? : Occurrence → Option SessionEvent
  | handling e => some e
  | _ => none

def isRecovery : Occurrence → Bool
  | recovering _ => true
  | _ => false

end Occurrence

namespace Client

variable {c c₁ c' : Client}

/-- The session events whose handling has begun, in this order. -/
def handled (c : Client) : List SessionEvent :=
  c.journal.reverse.filterMap Occurrence.event?

def recoveries (c : Client) : Nat :=
  c.journal.countP Occurrence.isRecovery

structure Unheard (c c' : Client) : Prop where
  handled : c'.handled = c.handled
  recoveries : c'.recoveries = c.recoveries
  settings : c'.settings = c.settings

namespace Unheard

theorem of_eq (hj : c'.journal = c.journal) (hs : c'.settings = c.settings) : c.Unheard c' :=
  ⟨by rw [Client.handled, hj, Client.handled], by rw [Client.recoveries, hj, Client.recoveries], hs⟩

theorem refl (c : Client) : c.Unheard c :=
  of_eq rfl rfl

theorem trans (h : c.Unheard c₁) (h' : c₁.Unheard c') : c.Unheard c' :=
  ⟨h'.handled.trans h.handled, h'.recoveries.trans h.recoveries, h'.settings.trans h.settings⟩

theorem of_journal {os : List Occurrence} (hj : c'.journal = os ++ c.journal)
    (ho : ∀ o ∈ os, o.event? = none ∧ o.isRecovery = false) (hs : c'.settings = c.settings) :
    c.Unheard c' := by
  have hevents : os.reverse.filterMap Occurrence.event? = [] :=
    List.filterMap_eq_nil_iff.mpr fun o hm => (ho o (List.mem_reverse.mp hm)).1
  have hnone : os.countP Occurrence.isRecovery = 0 :=
    List.countP_eq_zero.mpr fun o hm => by simp [(ho o hm).2]
  refine ⟨?_, ?_, hs⟩
  · rw [Client.handled, hj, List.reverse_append, List.filterMap_append, hevents, List.append_nil]
    rfl
  · rw [Client.recoveries, hj, List.countP_append, hnone, Nat.zero_add]
    rfl

theorem noted {o : Occurrence} (he : o.event? = none) (hr : o.isRecovery = false)
    (hj : c'.journal = o :: c.journal) (hs : c'.settings = c.settings) : c.Unheard c' := by
  have happended : c'.journal = [o] ++ c.journal := hj
  exact of_journal happended (by simp [he, hr]) hs

theorem remark (c : Client) (r : Remark) : c.Unheard (c.remark r) :=
  noted (o := .remarked r) rfl rfl rfl rfl

theorem submit (c : Client) (q : Request) : c.Unheard (c.submit q) :=
  noted (o := .asked q) rfl rfl rfl rfl

theorem settle (c : Client) (m : RemovalMode) (result : Except Fault (List Entry)) :
    c.Unheard (c.settle m result) :=
  noted (o := .settled m (outcomeOf result)) rfl rfl rfl rfl

theorem arm (c : Client) (e : Entry) : c.Unheard (c.arm e) := by
  simp only [Client.arm]
  split
  · exact noted (o := .armed e) rfl rfl rfl rfl
  · exact refl c

theorem unregister (c : Client) (cause : Cause) (path : String) (kind : Selector)
    (target : Target) : c.Unheard (c.unregister cause path kind target).2 :=
  noted (o := .taken cause _) rfl rfl rfl rfl

theorem fire (c : Client) (path : String) (e : WatchedEvent) : c.Unheard (c.fire path e).2 := by
  simp only [Client.fire]
  split
  · exact of_eq rfl rfl
  · exact noted (o := .taken (.fired e) _) rfl rfl rfl rfl

theorem send (c : Client) (p : Party) (d : Delivery) : c.Unheard (c.send p d).2 := by
  simp only [Client.send]
  split
  · exact (remark c _).trans (noted (o := .dropped d) rfl rfl rfl rfl)
  · exact noted (o := .queued d) rfl rfl rfl rfl
  · exact of_eq rfl rfl

theorem aside (h : c.Aside c') : c.Unheard c' := by
  obtain ⟨os, hj, ho⟩ := h.journal
  refine of_journal hj (fun o hm => ?_) h.settings
  have haside := ho o hm
  cases o with
  | handling | recovering => cases haside
  | asked | armed | taken | queued | dropped | called | settled | remarked => exact ⟨rfl, rfl⟩

theorem of_thins {r : RemovalRequest} (h : Removal.Thins r c c') : c.Unheard c' := by
  induction h with
  | none => exact refl c
  | taken _ kind ih => exact ih.trans (unregister _ .removed r.path kind r.target)
  | remarked _ m ih => exact ih.trans (remark _ m)

end Unheard

end Client

open Client (Unheard)

namespace Removal

variable {r : RemovalRequest} {party : Party} {st st' : Stage} {c c' : Client}

theorem unheard_start (r : RemovalRequest) (c : Client) : c.Unheard (start r c).2 := by
  have h := started r c
  generalize start r c = x at h ⊢
  cases h with
  | invalid | asking => exact .refl c
  | unmatched => exact (Unheard.unregister c _ _ _ _).trans (.settle _ _ _)
  | taken => exact .unregister c _ _ _ _
  | idle => exact .settle c _ _

theorem unheard_resume (h : resume r party st c = some (st', c')) : c.Unheard c' := by
  cases resumed h with
  | asked => exact .submit c _
  | advanced p answers => exact .of_thins (thins_advance p answers c)
  | told | passed => exact .refl c
  | telling => exact .send c _ _
  | finished => exact .settle c _ _
  | rearming => exact (Unheard.remark c _).trans (.submit _ _)

end Removal

namespace Session

variable {c c' : Client} {st st' : Stage}

/-- How many recoveries are still to begin while an event is handled. -/
def Stage.owes : Stage → Nat
  | .expiring | .expired => 1
  | .resubmitting _ | .dropping .. | .reporting _ | .done => 0

/-- What the client makes of the session while its last event is at this stage: every expiry was
recovered from but for one that is about to be, and the connection counts as lost if the last event said
so, unless an expiry has yet to decide it. -/
structure Stage.Fits (st : Stage) (c : Client) : Prop where
  recoveries : c.recoveries + st.owes = c.handled.count .expired
  expired : st.Recovers → c.handled.getLast? = some .expired
  connected : ¬st.Recovers → (c.connected = false ↔ c.handled.getLast? = some .disconnected)

theorem Stage.Fits.of_unheard (h : st.Fits c) (hc : c.Unheard c')
    (hconnected : c'.connected = c.connected) (howes : st'.owes = st.owes)
    (hrecovers : st'.Recovers ↔ st.Recovers) : st'.Fits c' := by
  refine ⟨?_, ?_, ?_⟩
  · rw [hc.recoveries, howes, hc.handled]
    exact h.recoveries
  · rw [hc.handled, hrecovers]
    exact h.expired
  · rw [hc.handled, hconnected, hrecovers]
    exact h.connected

theorem handled_start (e : SessionEvent) (c : Client) :
    (start e c).2.handled = c.handled ++ [e] ∧ (start e c).2.recoveries = c.recoveries ∧
      (start e c).2.settings = c.settings := by
  have hn : (c.note (.handling e)).handled = c.handled ++ [e] := by
    simp [Client.handled, Client.note, Occurrence.event?]
  have hr : (c.note (.handling e)).recoveries = c.recoveries := by
    simp [Client.recoveries, Client.note, Occurrence.isRecovery]
  have hrest : ∀ c', (c.note (.handling e)).Unheard c' → c'.handled = c.handled ++ [e] ∧
      c'.recoveries = c.recoveries ∧ c'.settings = c.settings := fun c' hc =>
    ⟨hc.handled.trans hn, hc.recoveries.trans hr, hc.settings⟩
  cases e with
  | disconnected =>
    have hlost : Unheard (c.note (.handling .disconnected))
        { c.note (.handling .disconnected) with connected := false } := .of_eq rfl rfl
    exact hrest _ (hlost.trans (.remark _ _))
  | reconnected => exact hrest _ (.of_eq rfl rfl)
  | expired => exact hrest _ (.remark _ _)

theorem fits_start (h : Stage.done.Fits c) (e : SessionEvent) : (start e c).1.Fits (start e c).2 := by
  obtain ⟨hhandled, hrecoveries, _⟩ := handled_start e c
  have hcount := h.recoveries
  have hlast : (start e c).2.handled.getLast? = some e := by
    rw [hhandled, List.getLast?_concat]
  have hnow : (start e c).2.connected = verdict e c.connected := (idles_start e c).connected
  refine ⟨?_, fun _ => ?_, fun hst => ?_⟩
  · rw [hrecoveries, hhandled, List.count_append, ← hcount]
    cases e <;> simp [start, Stage.owes]
  · rw [hlast]
    cases e with
    | expired => rfl
    | disconnected | reconnected => contradiction
  · rw [hlast, hnow]
    cases e with
    | expired => exact absurd trivial hst
    | disconnected | reconnected => simp [verdict]

theorem heard_recover (c : Client) :
    (recover c).2.handled = c.handled ∧ (recover c).2.recoveries = c.recoveries + 1 ∧
      (recover c).2.settings = c.settings := by
  have hbegun : ∀ policy, ((c.count (.recoveries policy) 1).note (.recovering policy)).handled =
        c.handled ∧
      ((c.count (.recoveries policy) 1).note (.recovering policy)).recoveries =
        c.recoveries + 1 := by
    intro policy
    constructor
    · simp [Client.handled, Client.note, Client.count, Occurrence.event?]
    · exact List.countP_cons_of_pos rfl
  cases hp : c.settings.recovery with
  | dropAll =>
    rw [recover_dropAll hp]
    have hdrain : Unheard ((c.count (.recoveries .dropAll) 1).note (.recovering .dropAll))
        ((c.count (.recoveries .dropAll) 1).note (.recovering .dropAll)).drain.2 :=
      .noted (o := .taken .expired _) rfl rfl rfl rfl
    exact ⟨hdrain.handled.trans (hbegun _).1, hdrain.recoveries.trans (hbegun _).2, hdrain.settings⟩
  | resubmitAll =>
    rw [recover_resubmitAll hp]
    exact ⟨(hbegun _).1, (hbegun _).2, rfl⟩

theorem fits_resume {p : Party} (hm : resume p st c = some (st', c')) :
    c'.handled = c.handled ∧ c'.settings = c.settings ∧ (st.Fits c → st'.Fits c') := by
  have hnow : c'.connected = (restores st || c.connected) := (mails_resume hm).connected
  have hkept : ∀ {c₁ : Client}, c.Unheard c₁ → c₁.connected = c.connected →
      ∀ st₁ : Stage, st₁.owes = st.owes → (st₁.Recovers ↔ st.Recovers) →
        c₁.handled = c.handled ∧ c₁.settings = c.settings ∧ (st.Fits c → st₁.Fits c₁) :=
    fun hc hconnected st₁ howes hrecovers =>
      ⟨hc.handled, hc.settings, fun h => h.of_unheard hc hconnected howes hrecovers⟩
  cases resumed hm with
  | expiring => exact hkept (.send c p _) hnow _ (by split <;> rfl) (by split <;> exact Iff.rfl)
  | expired =>
    obtain ⟨hhandled, hrecoveries, hsettings⟩ := heard_recover c
    have hstage : (recover c).1.owes = 0 ∧ (recover c).1.Recovers := by
      unfold recover
      dsimp only
      split <;> exact ⟨rfl, trivial⟩
    refine ⟨hhandled, hsettings, fun h => ⟨?_, fun _ => ?_, fun hn => absurd hstage.2 hn⟩⟩
    · rw [hrecoveries, hhandled, hstage.1]
      exact h.recoveries
    · rw [hhandled, h.expired trivial]
  | started => exact hkept (.submit c _) hnow _ rfl Iff.rfl
  | gathered | kept => exact hkept (.refl c) hnow _ rfl Iff.rfl
  | telling => exact hkept (.send c p _) hnow _ rfl Iff.rfl
  | dropped s f rs =>
    exact hkept ((Unheard.remark c _).trans (.unregister _ .expired _ _ _)) hnow _ rfl Iff.rfl
  | restored =>
    refine ⟨rfl, rfl, fun h => ⟨h.recoveries, fun hst => absurd hst id, fun _ => ?_⟩⟩
    change true = false ↔ c.handled.getLast? = some .disconnected
    rw [h.expired trivial]
    simp
  | reporting => exact hkept (.send c p _) hnow _ (by split <;> rfl) (by split <;> exact Iff.rfl)

/-- A task goes on: nothing is heard of the session. -/
theorem fits_update {slot : Nat} {f : Task → Client → Option (Backoff.Stage × Client)}
    (hm : update slot f st c = some (st', c')) (hc : c.Unheard c')
    (hconnected : c'.connected = c.connected) :
    c'.handled = c.handled ∧ c'.settings = c.settings ∧ (st.Fits c → st'.Fits c') := by
  obtain ⟨_, _, _, rfl, _, _, rfl⟩ := update_eq_some hm
  exact ⟨hc.handled, hc.settings, fun h => h.of_unheard hc hconnected rfl Iff.rfl⟩

/-- However the handling of an event goes on, nothing new is heard, and the client makes of the session
what it should. -/
theorem fits_move {p : Party} {m : Move}
    (hm : (Operation.session st).move m p c = some (.session st', c')) :
    c'.handled = c.handled ∧ c'.settings = c.settings ∧ (st.Fits c → st'.Fits c') := by
  cases Operation.moves hm with
  | handling st st' c' resume => exact fits_resume resume
  | answered slot x st st' c' answer =>
    have hremarked := remarked_answer answer
    exact fits_update answer (.aside (.of_remarked hremarked))
      (Client.Idles.of_remarked hremarked).connected
  | timedOut slot st st' c' timeOut =>
    have hremarked := remarked_timeOut timeOut
    exact fits_update timeOut (.aside (.of_remarked hremarked))
      (Client.Idles.of_remarked hremarked).connected
  | retried slot st st' c' retry =>
    obtain ⟨q, rfl⟩ := submitted_retry retry
    exact fits_update retry (.submit c q) rfl

end Session

namespace Operation

variable {p : Party} {m : Move} {o o' : Operation} {c c' : Client}

theorem unheard_start {o : Order} (ho : ∀ e, o ≠ .session e) (c : Client) :
    c.Unheard (start o c).2 := by
  have h := started o c
  generalize start o c = x at h ⊢
  cases h with
  | unread | unremoved | unenrolled | offering | ignored | announced => exact .refl c
  | asked => exact .submit c _
  | removing r => exact Removal.unheard_start r c
  | fired e path => exact .fire c path e
  | unhandled e | handling e => exact absurd rfl (ho e)

theorem unheard_move (ho : ∀ st, o ≠ .session st) (h : o.move m p c = some (o', c')) :
    c.Unheard c' := by
  cases moves h with
  | failed | refused | notified => exact .refl c
  | armed a => exact .arm c _
  | removing r st st' c' resume => exact Removal.unheard_resume resume
  | settling r slot x st st' c' answer => exact .of_thins (Removal.thins_answer answer)
  | enrolled | lining => exact .of_eq rfl rfl
  | notifying d ds => exact .send c p d
  | handling st | answered _ _ st | timedOut _ st | retried _ st => exact absurd rfl (ho st)

end Operation

namespace Listener

/-- The stage of the event in hand; an event that is over leaves nothing. -/
def stage : Listener → Session.Stage
  | handling st => st
  | idle | stopped => .done

theorem stage_ofStage (st : Session.Stage) : (ofStage st).stage = st := by
  cases st <;> rfl

end Listener

namespace Engine

variable {a : Action} {s t : Engine}

/-- No call is handling an event of the session. -/
def Indirect (s : Engine) : Prop :=
  ∀ x ∈ s.calls, ∀ st, x.2 ≠ .session st

theorem Indirect.task (h : s.Indirect) {p : Party} {st : Session.Stage}
    (ht : s.task? p = some (.session st)) : p = .listener := by
  cases p with
  | caller id =>
    obtain ⟨l₁, l₂, hl, _⟩ := List.lookup_eq_some_iff.mp ht
    exact absurd rfl (h (id, .session st) (hl ▸ List.mem_append_right _ (.head _)) st)
  | remover => exact absurd ht (task?_remover_ne s st)
  | listener => rfl

theorem indirect_act (h : s.Indirect) (ha : ∀ e, a ≠ .begin (.session e)) (ho : s.client.closed = false)
    (hact : act a s = some t) : t.Indirect := by
  cases act_change ho hact with
  | begun o =>
    intro x hx
    rcases List.mem_append.mp hx with hx | hx
    · exact h x hx
    · rw [List.mem_singleton.mp hx]
      exact Operation.start_ne_session (fun e he => ha e (he ▸ rfl)) s.client
  | moved p m o o' c action task move =>
    cases p with
    | caller id =>
      intro x hx
      obtain ⟨y, hy, rfl⟩ := List.mem_map.mp hx
      split
      · obtain ⟨l₁, l₂, hl, _⟩ := List.lookup_eq_some_iff.mp task
        have hother := h (id, o) (hl ▸ List.mem_append_right _ (.head _))
        exact Operation.ne_session_of_move move hother
      · exact h y hy
    | remover | listener => exact h
  | abandoned | collected => exact fun x hx => h x (List.mem_of_mem_filter hx)
  | _ => exact h

/-- The event that an action sends on the feed. -/
def Action.sent? : Action → Option SessionEvent
  | .feed e => some e
  | _ => none

/-- How an action bears on the session, as long as its events come through the feed. -/
inductive Hearing (s : Engine) (a : Action) (t : Engine) : Prop
  | heard (e : SessionEvent) (es : List SessionEvent) (action : a = .listen)
    (idle : s.listener = .idle) (lossless : s.feed.lost = 0) (unread : s.feed.unread = e :: es)
    (client : t.client = (Session.start e s.client).2)
    (listener : t.listener = .ofStage (Session.start e s.client).1)
    (feed : t.feed = { s.feed with unread := es })
  | lagged (action : a = .listen) (idle : s.listener = .idle) (lossy : 0 < s.feed.lost)
    (client : t.client = s.client.remark (.feedLagged s.feed.lost))
    (listener : t.listener = .idle) (feed : t.feed = { s.feed with lost := 0 })
  | deafened (action : a = .listen) (idle : s.listener = .idle) (lossless : s.feed.lost = 0)
    (read : s.feed.unread = []) (ended : s.feed.isOpen = false) (client : t.client = s.client)
    (listener : t.listener = .stopped) (feed : t.feed = s.feed)
  | fed (e : SessionEvent) (action : a = .feed e) (opened : s.feed.isOpen = true)
    (listening : s.listener.isStopped = false) (after : t = { s with feed := s.feed.send e })
  | ended (action : a = .endFeed) (after : t = { s with feed := s.feed.close })
  | moved (m : Move) (st st' : Session.Stage) (action : a = actionOf .listener m)
    (inHand : s.listener = .handling st)
    (move : (Operation.session st).move m .listener s.client = some (.session st', t.client))
    (listener : t.listener = .ofStage st') (feed : t.feed = s.feed)
  | beside (unheard : s.client.Unheard t.client)
    (connected : t.client.connected = s.client.connected) (listener : t.listener = s.listener)
    (feed : t.feed = s.feed)

theorem hearing_listen (ho : s.client.closed = false) (h : act .listen s = some t) :
    Hearing s .listen t := by
  cases listened ho h with
  | lagged idle lagging => exact .lagged rfl idle lagging rfl idle rfl
  | heard e es idle lossless unread => exact .heard e es rfl idle lossless unread rfl rfl rfl
  | deafened idle lossless unread ended => exact .deafened rfl idle lossless unread ended rfl rfl rfl

/-- The listener has no part in the action, and nothing is done to its feed. -/
def Action.isElsewhere : Action → Bool
  | .resume p | .answer p _ _ | .timeOut p _ | .retry p _ => p ≠ .listener
  | .listen | .feed _ | .endFeed => false
  | .begin _ | .dispatch _ | .turn | .sleep | .perform _ | .release | .abandon _ | .collect _ => true

theorem tiding?_of_indirect (h : s.Indirect) (ha : ∀ e, a ≠ .begin (.session e))
    (he : a.isElsewhere = true) : a.tiding? s = none := by
  cases a with
  | begin o => cases o with
    | session e => exact absurd rfl (ha e)
    | arm | remove | enrol | notify => rfl
  | resume p =>
    simp only [Action.tiding?]
    split
    · rename_i st ht
      exact absurd (h.task ht) (by simpa [Action.isElsewhere] using he)
    · rfl
  | listen => cases he
  | _ => rfl

theorem hearing_act (ho : s.client.closed = false) (hs : s.Indirect)
    (ha : ∀ e, a ≠ .begin (.session e)) (h : act a s = some t) : Hearing s a t := by
  have hbeside : a.isElsewhere = true → s.client.Unheard t.client → t.listener = s.listener →
      t.feed = s.feed → Hearing s a t := fun he hc hl hf => by
    refine .beside hc ?_ hl hf
    rw [connected_act ho h, tiding?_of_indirect hs ha he]
    rfl
  cases act_change ho h with
  | begun o =>
    exact hbeside rfl (Operation.unheard_start (fun e he => ha e (he ▸ rfl)) s.client) rfl rfl
  | moved p m o o' c action task move =>
    by_cases hp : p = .listener
    · subst hp
      cases hl : s.listener with
      | handling st =>
        obtain rfl : .session st = o := by simpa [task?, hl, Listener.task?] using task
        obtain ⟨st', rfl⟩ : ∃ st', o' = .session st' := by
          cases Operation.moves move <;> exact ⟨_, rfl⟩
        exact .moved m st st' action hl move rfl rfl
      | idle | stopped => simp [task?, hl, Listener.task?] at task
    · -- Only the listener handles events.
      have hnone : ∀ st, o ≠ .session st := by
        rintro st rfl
        exact hp (hs.task task)
      refine hbeside ?_ ?_ ?_ ?_
      · rw [action]
        cases m <;> simpa [actionOf, Action.isElsewhere] using hp
      · rw [client_put]
        exact Operation.unheard_move hnone move
      · cases p with
        | caller | remover => rfl
        | listener => exact absurd rfl hp
      · cases p <;> rfl
  | concluded b r worker =>
    exact hbeside rfl (.aside (.of_remarked (Worker.remarked_conclude b r s.client))) rfl rfl
  | reported f e sent c worker send =>
    obtain rfl : (s.client.send .remover (.completion f e)).2 = c := congrArg Prod.snd send
    exact hbeside rfl (.send s.client _ _) rfl rfl
  | dispatched conduct d q =>
    have htaken : Unheard s.client { s.client with deliveries := q } := .of_eq rfl rfl
    exact hbeside rfl (htaken.trans (.aside (.deliver conduct _ d))) rfl rfl
  | silenced =>
    have hremark := Unheard.remark s.client .deliveryQueueClosed
    exact hbeside rfl (hremark.trans (.of_eq rfl rfl)) rfl rfl
  | undertook b => exact hbeside rfl (Removal.unheard_start b.request s.client) rfl rfl
  | performed d => exact hbeside rfl (.aside (.apply s.client d)) rfl rfl
  | lagged | heard | deafened => exact hearing_listen ho h
  | fed e =>
    simp only [act, feedEvent] at h
    split at h
    · rename_i hfed
      simp only [Bool.and_eq_true, Bool.not_eq_true'] at hfed
      exact .fed e rfl hfed.1 hfed.2 rfl
    · cases h
  | feedEnded => exact .ended rfl rfl
  | stirred w action =>
    rcases action with rfl | rfl <;> exact hbeside rfl (.refl _) rfl rfl
  | took | retired | released | abandoned | collected =>
    exact hbeside rfl (.of_eq rfl rfl) rfl rfl

end Engine

end NodeWatch
