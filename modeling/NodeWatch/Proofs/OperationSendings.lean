import NodeWatch.Proofs.EntryFates

/-! What an operation sends. It offers its deliveries one after another, each until it is over and
done with, calls no user code, and leaves the connection as it is, unless the event of a session sets
it or a recovery from an expired session ends. -/

namespace NodeWatch

def Occurrence.invocation? : Occurrence → Option Call
  | called x => some x
  | _ => none

/-- The delivery that a party has done with. -/
def Occurrence.sent? : Occurrence → Option Delivery
  | queued d | dropped d => some d
  | _ => none

namespace Client

variable {c c₁ c' : Client} {x : Bool}

def invocations (os : List Occurrence) : List Call :=
  os.reverse.filterMap Occurrence.invocation?

def sendings (os : List Occurrence) : List Delivery :=
  os.reverse.filterMap Occurrence.sent?

/-- The deliveries of the listed occurrences, the earliest first. -/
def queuings (os : List Occurrence) : List Delivery :=
  os.reverse.filterMap fun o => match o with
    | .queued d => some d
    | _ => none

/-- The requests among the listed occurrences, the earliest first. -/
def askings (os : List Occurrence) : List Request :=
  os.reverse.filterMap fun o => match o with
    | .asked r => some r
    | _ => none

theorem queuings_append (os js : List Occurrence) :
    queuings (os ++ js) = queuings js ++ queuings os := by
  simp [queuings, List.filterMap_append]

theorem askings_append (os js : List Occurrence) :
    askings (os ++ js) = askings js ++ askings os := by
  simp [askings, List.filterMap_append]

theorem queuings_silent {os js : List Occurrence} (h : queuings js = []) :
    queuings (js ++ os) = queuings os := by
  rw [queuings_append, h, List.append_nil]

theorem askings_silent {os js : List Occurrence} (h : askings js = []) :
    askings (js ++ os) = askings os := by
  rw [askings_append, h, List.append_nil]

theorem queuings_queued (d : Delivery) (os : List Occurrence) :
    queuings (.queued d :: os) = queuings os ++ [d] :=
  queuings_append [.queued d] os

theorem askings_queued (d : Delivery) (os : List Occurrence) :
    askings (.queued d :: os) = askings os := by
  rw [← List.singleton_append, askings_silent]
  rfl

theorem invocations_append (os js : List Occurrence) :
    invocations (os ++ js) = invocations js ++ invocations os := by
  simp [invocations, List.filterMap_append]

theorem mem_invocations {os : List Occurrence} {x : Call} : x ∈ invocations os ↔ .called x ∈ os := by
  simp only [invocations, List.mem_filterMap, List.mem_reverse]
  constructor
  · rintro ⟨o, ho, hx⟩
    cases o with
    | called y =>
      obtain rfl := Option.some.inj hx
      exact ho
    | _ => cases hx
  · exact fun h => ⟨_, h, rfl⟩

theorem sendings_append (os js : List Occurrence) :
    sendings (os ++ js) = sendings js ++ sendings os := by
  simp [sendings, List.filterMap_append]

theorem queuings_of_sendings {os : List Occurrence} (h : sendings os = []) : queuings os = [] := by
  refine List.filterMap_eq_nil_iff.mpr fun o ho => ?_
  have hnone := List.filterMap_eq_nil_iff.mp h o ho
  cases o with
  | queued d => cases hnone
  | _ => rfl

theorem tellings_of_sendings {os : List Occurrence} (h : sendings os = []) : tellings os = [] := by
  refine List.filterMap_eq_nil_iff.mpr fun o ho => ?_
  have hnone := List.filterMap_eq_nil_iff.mp h o (List.mem_reverse.mpr ho)
  cases o with
  | queued d => cases hnone
  | _ => rfl

/-- The deliveries that are new on the queue, where nothing was taken off in between. -/
def growth (c c' : Client) : List Delivery :=
  c'.deliveries.items.drop c.deliveries.items.length

theorem growth_of_append {ds : List Delivery}
    (h : c'.deliveries.items = c.deliveries.items ++ ds) : c.growth c' = ds := by
  rw [growth, h, List.drop_left]

/-- What was added to the queue of deliveries is what was noted as queued, in the same order. -/
structure Grows (c c' : Client) : Prop where
  isOpen : c'.deliveries.isOpen = c.deliveries.isOpen
  items : ∃ os, c'.journal = os ++ c.journal ∧
    c'.deliveries.items = c.deliveries.items ++ queuings os

theorem Grows.growth (h : c.Grows c') :
    ∃ os, c'.journal = os ++ c.journal ∧ c.growth c' = queuings os := by
  obtain ⟨os, hj, hitems⟩ := h.items
  exact ⟨os, hj, growth_of_append hitems⟩

/-- Nothing was sent, no user code was called, and the connection then counted as live, or not. -/
structure Idles (c c' : Client) (connected : Bool) : Prop where
  closed : c'.closed = c.closed
  connected : c'.connected = connected
  deliveries : c'.deliveries = c.deliveries
  journal : ∃ os, c'.journal = os ++ c.journal ∧ invocations os = [] ∧ sendings os = []

namespace Idles

theorem of_eq (hc : c'.closed = c.closed) (hx : c'.connected = x)
    (hd : c'.deliveries = c.deliveries) (hj : c'.journal = c.journal) : c.Idles c' x :=
  ⟨hc, hx, hd, [], hj, rfl, rfl⟩

theorem noted {o : Occurrence} (hi : o.invocation? = none) (hs : o.sent? = none)
    (hc : c'.closed = c.closed) (hx : c'.connected = x) (hd : c'.deliveries = c.deliveries)
    (hj : c'.journal = o :: c.journal) : c.Idles c' x :=
  ⟨hc, hx, hd, [o], hj, by simp [invocations, hi], by simp [sendings, hs]⟩

theorem refl (c : Client) : c.Idles c c.connected :=
  of_eq rfl rfl rfl rfl

theorem trans (h : c.Idles c₁ x) (h' : c₁.Idles c' c₁.connected) : c.Idles c' x := by
  obtain ⟨os, hj, hcalls, hsent⟩ := h.journal
  obtain ⟨os', hj', hcalls', hsent'⟩ := h'.journal
  refine ⟨h'.closed.trans h.closed, h'.connected.trans h.connected,
    h'.deliveries.trans h.deliveries, os' ++ os, ?_, ?_, ?_⟩
  · rw [hj', hj, List.append_assoc]
  · rw [invocations_append, hcalls, hcalls', List.append_nil]
  · rw [sendings_append, hsent, hsent', List.append_nil]

theorem note (c : Client) {o : Occurrence} (hi : o.invocation? = none) (hs : o.sent? = none) :
    c.Idles (c.note o) c.connected :=
  noted hi hs rfl rfl rfl rfl

theorem remark (c : Client) (r : Remark) : c.Idles (c.remark r) c.connected :=
  note c rfl rfl

theorem submit (c : Client) (r : Request) : c.Idles (c.submit r) c.connected :=
  note c rfl rfl

theorem settle (c : Client) (m : RemovalMode) (result : Except Fault (List Entry)) :
    c.Idles (c.settle m result) c.connected :=
  noted (o := .settled m (outcomeOf result)) rfl rfl rfl rfl rfl rfl

theorem arm (c : Client) (e : Entry) : c.Idles (c.arm e) c.connected := by
  simp only [Client.arm]
  split
  · exact noted (o := .armed e) rfl rfl rfl rfl rfl rfl
  · exact refl c

theorem unregister (c : Client) (cause : Cause) (path : String) (kind : Selector)
    (target : Target) : c.Idles (c.unregister cause path kind target).2 c.connected :=
  noted (o := .taken cause _) rfl rfl rfl rfl rfl rfl

theorem fire (c : Client) (path : String) (e : WatchedEvent) :
    c.Idles (c.fire path e).2 c.connected := by
  simp only [Client.fire]
  split
  · exact of_eq rfl rfl rfl rfl
  · exact noted (o := .taken (.fired e) _) rfl rfl rfl rfl rfl rfl

theorem drain (c : Client) : c.Idles c.drain.2 c.connected :=
  noted (o := .taken .expired _) rfl rfl rfl rfl rfl rfl

theorem grows (h : c.Idles c' x) : c.Grows c' := by
  obtain ⟨os, hj, _, hsent⟩ := h.journal
  refine ⟨by rw [h.deliveries], os, hj, ?_⟩
  rw [h.deliveries, queuings_of_sendings hsent, List.append_nil]

theorem of_remarked (h : c.Remarked c') : c.Idles c' c.connected := by
  induction h with
  | none => exact refl c
  | more _ r ih => exact ih.trans (remark _ r)

theorem of_thins {r : RemovalRequest} (h : Removal.Thins r c c') : c.Idles c' c.connected := by
  induction h with
  | none => exact refl c
  | taken _ kind ih => exact ih.trans (unregister _ .removed r.path kind r.target)
  | remarked _ m ih => exact ih.trans (remark _ m)

end Idles

inductive Sent (c : Client) (p : Party) (d : Delivery) : Bool → Client → Prop
  | dropped (refused : c.deliveries.isOpen = false) :
    Sent c p d true ((c.remark .deliveryDropped).note (.dropped d))
  | queued (q : Queue Delivery) (offer : c.deliveries.offer p d = .accepted q)
    (opens : c.deliveries.isOpen = true) :
    Sent c p d true ({ c with deliveries := q }.note (.queued d))
  | lined (q : Queue Delivery) (offer : c.deliveries.offer p d = .mustWait q)
    (opens : c.deliveries.isOpen = true) : Sent c p d false { c with deliveries := q }

theorem sent (c : Client) (p : Party) (d : Delivery) :
    c.Sent p d (c.send p d).1 (c.send p d).2 := by
  cases hopen : c.deliveries.isOpen with
  | false =>
    have ho : c.deliveries.offer p d = .refused := by simp [Queue.offer, hopen]
    simp only [send, ho]
    exact .dropped hopen
  | true =>
    rcases Queue.offer_of_open hopen p d with ⟨q, ho, _⟩ | ⟨q, ho, _⟩
    · simp only [send, ho]
      exact .queued q ho hopen
    · simp only [send, ho]
      exact .lined q ho hopen

theorem grows_send (c : Client) (p : Party) (d : Delivery) : c.Grows (c.send p d).2 := by
  have hsent := c.sent p d
  generalize c.send p d = x at hsent ⊢
  obtain ⟨done, c'⟩ := x
  cases hsent with
  | dropped refused =>
    exact ⟨rfl, [.dropped d, .remarked .deliveryDropped], rfl, (List.append_nil _).symm⟩
  | queued q offer opens =>
    exact ⟨Queue.isOpen_of_offer (.inl offer), [.queued d], rfl, Queue.items_of_accepted offer⟩
  | lined q offer opens =>
    exact ⟨Queue.isOpen_of_offer (.inr offer), [], rfl,
      (Queue.items_of_mustWait offer).trans (List.append_nil _).symm⟩

theorem closed_send (c : Client) (p : Party) (d : Delivery) : (c.send p d).2.closed = c.closed := by
  simp only [send]
  split <;> rfl

/-- A party sends the first of the deliveries on its agenda, unless it has to wait for a place, or
sends nothing; then it has the same agenda before it as before, or had none. -/
inductive Mails (p : Party) (c : Client) : Client → Bool → List Delivery → List Delivery → Prop
  | idled {c' : Client} {connected : Bool} {ds ds' : List Delivery} (idles : c.Idles c' connected)
    (agenda : ds' = ds ∨ ds = []) : Mails p c c' connected ds ds'
  | sent {c' : Client} {ds' : List Delivery} (d : Delivery) (ds : List Delivery)
    (client : c' = (c.send p d).2) (agenda : ds' = if (c.send p d).1 then ds else d :: ds) :
    Mails p c c' c.connected (d :: ds) ds'

theorem Mails.connected {p : Party} {ds ds' : List Delivery} (h : Mails p c c' x ds ds') :
    c'.connected = x := by
  cases h with
  | idled idles => exact idles.connected
  | sent d ds client =>
    have hsent := c.sent p d
    rw [client]
    generalize c.send p d = x at hsent ⊢
    obtain ⟨done, c₁⟩ := x
    cases hsent <;> rfl

theorem Mails.closed {p : Party} {ds ds' : List Delivery} (h : Mails p c c' x ds ds') :
    c'.closed = c.closed := by
  cases h with
  | idled idles => exact idles.closed
  | sent d ds client => rw [client, closed_send]

theorem Mails.grows {p : Party} {ds ds' : List Delivery} (h : Mails p c c' x ds ds') :
    c.Grows c' := by
  cases h with
  | idled idles => exact idles.grows
  | sent d ds client => exact client ▸ c.grows_send p d

end Client

open Client (Idles Mails)

namespace Removal

variable {r : RemovalRequest} {p : Plan} {party : Party} {st st' : Stage} {c c' : Client}

/-- The deliveries that confirm the removal of entries. -/
def confirmations (es : List Entry) : List Delivery :=
  es.map (Delivery.removed · .syncConnected)

def Stage.agenda : Stage → List Delivery
  | .confirming es _ => confirmations es
  | .asking .. | .checking .. | .rearming .. | .done _ => []

theorem idles_start (r : RemovalRequest) (c : Client) :
    c.Idles (start r c).2 c.connected := by
  have h := started r c
  generalize start r c = x at h ⊢
  cases h with
  | invalid | asking => exact .refl c
  | unmatched => exact (Idles.unregister c _ _ _ _).trans (.settle _ _ _)
  | taken => exact .unregister c _ _ _ _
  | idle => exact .settle c _ _

theorem mails_resume (h : resume r party st c = some (st', c')) :
    Mails party c c' c.connected st.agenda st'.agenda := by
  cases resumed h with
  | asked => exact .idled (.submit c _) (.inl rfl)
  | advanced p answers => exact .idled (.of_thins (thins_advance p answers c)) (.inr rfl)
  | told | passed => exact .idled (.refl c) (.inl rfl)
  | telling e es o => exact .sent _ (confirmations es) rfl (apply_ite confirmations _ _ _)
  | finished => exact .idled (.settle c _ _) (.inl rfl)
  | rearming => exact .idled ((Idles.remark c _).trans (.submit _ _)) (.inl rfl)

theorem mails_answer {slot : Nat} {x : Answer} (h : answer r slot x st c = some (st', c')) :
    Mails party c c' c.connected st.agenda st'.agenda := by
  refine .idled (.of_thins (thins_answer h)) (.inr ?_)
  cases replied h with
  | advanced | rearmed => rfl

end Removal

namespace Notification

def Stage.agenda : Stage → List Delivery
  | .telling ds => ds
  | .done => []

end Notification

namespace Session

def Stage.agenda : Stage → List Delivery
  | .expiring => [.state (.linkChange .expired)]
  | .dropping _ es => es.map (Delivery.removed · .expired)
  | .reporting state => [.state (.linkChange state)]
  | .expired | .resubmitting _ | .done => []

/-- While tasks arm watches again there is nothing to send. -/
theorem agenda_update {slot : Nat} {f : Task → Client → Option (Backoff.Stage × Client)}
    {st st' : Stage} {c c' : Client} (h : update slot f st c = some (st', c')) : st.agenda = [] := by
  obtain ⟨_, _, _, rfl, _⟩ := update_eq_some h
  rfl

def verdict : SessionEvent → Bool → Bool
  | .disconnected, _ => false
  | .reconnected, _ => true
  | .expired, connected => connected

variable {p : Party} {st st' : Stage} {c c' : Client}

theorem idles_start (e : SessionEvent) (c : Client) :
    c.Idles (start e c).2 (verdict e c.connected) := by
  have hn : c.Idles (c.note (.handling e)) c.connected := .note c rfl rfl
  cases e with
  | disconnected =>
    have hlost : c.Idles { c.note (.handling .disconnected) with connected := false } false :=
      .noted (o := .handling .disconnected) rfl rfl rfl rfl rfl rfl
    exact hlost.trans (.remark _ _)
  | reconnected => exact .noted (o := .handling .reconnected) rfl rfl rfl rfl rfl rfl
  | expired => exact hn.trans (.remark _ _)

theorem idles_recover (c : Client) : c.Idles (recover c).2 c.connected := by
  have hn : c.Idles ((c.count (.recoveries c.settings.recovery) 1).note
      (.recovering c.settings.recovery)) c.connected :=
    .noted (o := .recovering _) rfl rfl rfl rfl rfl rfl
  unfold recover
  dsimp only
  split
  · exact hn.trans (.drain _)
  · exact hn

/-- The recovery is over: its last result was acted upon. -/
def restores : Stage → Bool
  | .dropping rs es => es.isEmpty && rs.isEmpty
  | _ => false

theorem mails_resume (h : resume p st c = some (st', c')) :
    Mails p c c' (restores st || c.connected) st.agenda st'.agenda := by
  cases resumed h with
  | expiring =>
    refine .sent _ [] rfl ?_
    split <;> rfl
  | expired => exact .idled (idles_recover c) (.inr rfl)
  | started => exact .idled (.submit c _) (.inl rfl)
  | gathered | kept => exact .idled (.refl c) (.inl rfl)
  | telling rs e es => exact .sent _ (es.map _) rfl (apply_ite (List.map _) _ _ _)
  | dropped s f rs =>
    exact .idled ((Idles.remark c _).trans (.unregister _ .expired _ _ _)) (.inr rfl)
  | restored => exact .idled (.of_eq rfl rfl rfl rfl) (.inr rfl)
  | reporting state =>
    refine .sent _ [] rfl ?_
    split <;> rfl

end Session

namespace Operation

variable {p : Party} {m : Move} {o o' : Operation} {c c' : Client}

/-- The deliveries that an operation has to send next, in this order. -/
def agenda : Operation → List Delivery
  | removal _ st => st.agenda
  | notification st => st.agenda
  | session st => st.agenda
  | arming .. | enrolment .. => []

def restores : Move → Operation → Bool
  | .resume, session st => Session.restores st
  | _, _ => false

def verdict (o : Order) (c : Client) : Bool :=
  match o with
  | .session e => if c.closed then c.connected else Session.verdict e c.connected
  | .arm _ | .remove _ | .enrol _ | .notify _ => c.connected

theorem idles_start (o : Order) (c : Client) : c.Idles (start o c).2 (verdict o c) := by
  have h := started o c
  generalize start o c = x at h ⊢
  cases h with
  | unread | unremoved | unenrolled | offering | ignored | announced => exact .refl c
  | unhandled e shut =>
    rw [verdict, if_pos shut]
    exact .refl c
  | asked => exact .submit c _
  | removing r => exact Removal.idles_start r c
  | fired e path => exact .fire c path e
  | handling e opened =>
    simp only [verdict, opened]
    exact Session.idles_start e c

/-- A move sends the delivery that is due, or nothing. -/
theorem mails_move (h : o.move m p c = some (o', c')) :
    Mails p c c' (restores m o || c.connected) o.agenda o'.agenda := by
  cases moves h with
  | failed | refused | notified => exact .idled (.refl c) (.inr rfl)
  | armed a => exact .idled (.arm c _) (.inr rfl)
  | removing r st st' c' resume => exact Removal.mails_resume resume
  | settling r slot x st st' c' answer => exact Removal.mails_answer answer
  | enrolled | lining => exact .idled (.of_eq rfl rfl rfl rfl) (.inr rfl)
  | notifying d ds => exact .sent d ds rfl rfl
  | handling st st' c' resume => exact Session.mails_resume resume
  | answered slot x st st' c' answer =>
    exact .idled (.of_remarked (Session.remarked_answer answer)) (.inr (Session.agenda_update answer))
  | timedOut slot st st' c' timeOut =>
    exact .idled (.of_remarked (Session.remarked_timeOut timeOut))
      (.inr (Session.agenda_update timeOut))
  | retried slot st st' c' retry =>
    obtain ⟨q, rfl⟩ := Session.submitted_retry retry
    exact .idled (.submit c q) (.inr (Session.agenda_update retry))

/-- No operation closes the queue of deliveries, or puts anything there that it does not note. -/
theorem grows_move (h : o.move m p c = some (o', c')) : c.Grows c' :=
  (mails_move h).grows

end Operation

end NodeWatch
