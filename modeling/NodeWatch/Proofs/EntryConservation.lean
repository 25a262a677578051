import Mathlib.Logic.Relation
import NodeWatch.Proofs.EntryAccounts
import NodeWatch.Proofs.TaskTurnover

/-! Every entry is consumed at most once, and announced exactly once when it is consumed. The books
of the client balance after every step of every operation, whatever the others do in between, when
the entries that are taken out and not yet announced are counted as owed by the operation that
holds them. -/

namespace NodeWatch

namespace Removal

def pending : Stage → Multiset Delivery
  | .confirming rest _ => ↑(rest.map (Delivery.removed · .syncConnected))
  | .asking .. | .checking .. | .rearming .. | .done _ => 0

theorem pending_confirming_cons (e : Entry) (es : List Entry) (o : Settlement) :
    pending (.confirming (e :: es) o) =
      .removed e .syncConnected ::ₘ pending (.confirming es o) :=
  rfl

variable {r : RemovalRequest} {c c' : Client} {owed : Multiset Delivery}

theorem accounts_finish (h : c.Accounts owed) (result : Except Fault (List Entry)) :
    (finish r result c).2.Accounts (pending (finish r result c).1 + owed) := by
  have hs : (c.settle r.mode result).Accounts owed :=
    (h.count _ 1).note ⟨rfl, rfl, rfl⟩
  simpa [finish, pending] using hs

theorem accounts_start (h : c.Accounts owed) :
    (start r c).2.Accounts (pending (start r c).1 + owed) := by
  have hu := h.unregister_removed r.path r.kind r.target
  have hstart := started r c
  generalize start r c = x at hstart ⊢
  cases hstart with
  | invalid | asking => simpa [pending] using h
  | unmatched _ _ none =>
    rw [none] at hu
    exact accounts_finish (by simpa using hu) _
  | taken => exact hu
  | idle => exact accounts_finish h _

/-- What a settlement removed is owed, besides what was owed before. -/
def Settled (owed : Multiset Delivery) (x : Settlement × Client) : Prop :=
  x.2.Accounts (↑(x.1.removed.map (Delivery.removed · .syncConnected)) + owed)

theorem settled_takeOut {s : Settlement} (h : Settled owed (s, c)) (path : String)
    (kind : Selector) (target : Target) {s' : Settlement}
    (hs : s'.removed = s.removed ++ (c.unregister .removed path kind target).1) :
    Settled owed (s', (c.unregister .removed path kind target).2) := by
  have hu := Client.Accounts.unregister_removed h path kind target
  simp only [Settled]
  rw [hs, List.map_append, ← Multiset.coe_add, add_comm (Multiset.ofList (s.removed.map _)),
    add_assoc]
  exact hu

theorem settled_settleKind {p : Plan} {x : Settlement × Client} (h : Settled owed x)
    (a : Kind × Answer) : Settled owed (settleKind r p x a) := by
  obtain ⟨s, c⟩ := x
  obtain ⟨k, a⟩ := a
  unfold settleKind
  dsimp only
  cases a with
  | ok _ => exact settled_takeOut h r.path (.only k) r.target rfl
  | error f =>
    dsimp only
    split
    · split
      · exact settled_takeOut h r.path (.only k) r.target rfl
      · split
        · exact h
        · exact h
    · exact Client.Accounts.note h ⟨rfl, rfl, rfl⟩

theorem settled_settleHere {x : Settlement × Client} (h : Settled owed x) (k : Kind) :
    Settled owed (settleHere r x k) :=
  settled_takeOut h r.path (.only k) r.target rfl

theorem settled_reconcile (h : c.Accounts owed) (p : Plan) (answers : List Answer) :
    Settled owed (reconcile r p answers c) := by
  have h0 : Settled owed (⟨[], [], none⟩, c) := by simpa [Settled] using h
  have hasked : Settled owed ((p.server.zip answers).foldl (settleKind r p) (⟨[], [], none⟩, c)) :=
    List.foldlRecOn _ _ h0 fun _ hx a _ => settled_settleKind hx a
  have hhere : Settled owed (p.here.foldl (settleHere r)
      ((p.server.zip answers).foldl (settleKind r p) (⟨[], [], none⟩, c))) :=
    List.foldlRecOn _ _ hasked fun _ hx k _ => settled_settleHere hx k
  exact hhere

theorem accounts_advance (h : c.Accounts owed) (p : Plan) (answers : List (Option Answer)) :
    (advance r p answers c).2.Accounts (pending (advance r p answers c).1 + owed) := by
  simp only [advance]
  split
  · simpa [pending] using h
  · exact settled_reconcile h p _

theorem accounts_answer {st st' : Stage} {slot : Nat} {x : Answer}
    (h : c.Accounts (pending st + owed)) (hm : answer r slot x st c = some (st', c')) :
    c'.Accounts (pending st' + owed) := by
  cases replied hm with
  | advanced p answers awaited => exact accounts_advance (by simpa [pending] using h) p _
  | rearmed k ks o first c' aside unasked => exact Client.Accounts.aside h aside

theorem accounts_resume {st st' : Stage} {party : Party} (h : c.Accounts (pending st + owed))
    (hm : resume r party st c = some (st', c')) : c'.Accounts (pending st' + owed) := by
  cases resumed hm with
  | asked p answers k next => exact h.note ⟨rfl, rfl, rfl⟩
  | advanced p answers empty => exact accounts_advance (by simpa [pending] using h) p _
  | told o => exact h
  | telling e es o =>
    rw [pending_confirming_cons, Multiset.cons_add] at h
    rcases h.send rfl party with ⟨hsent, ha⟩ | ⟨hsent, ha⟩
    · rw [if_pos hsent]
      exact ha
    · rw [hsent, if_neg Bool.false_ne_true, pending_confirming_cons, Multiset.cons_add]
      exact ha
  | finished o result => exact accounts_finish (by simpa [pending] using h) result
  | passed k ks o unheld => exact h
  | rearming k ks o held => exact (h.note ⟨rfl, rfl, rfl⟩).note ⟨rfl, rfl, rfl⟩

end Removal

namespace Notification

def pending : Stage → Multiset Delivery
  | .telling rest => ↑(rest.filter Delivery.isWatched)
  | .done => 0

variable {c c' : Client} {owed : Multiset Delivery}

theorem accounts_fired (h : c.Accounts owed) {e : WatchedEvent} {path : String}
    (hp : e.path = some path) :
    (c.fire path e).2.Accounts
      (pending (.telling ((c.fire path e).1.map fun x => .watched x.subscriber x.kind e)) + owed) := by
  have hall : ∀ es : List Entry,
      (es.map fun x => Delivery.watched x.subscriber x.kind e).filter Delivery.isWatched =
        es.map fun x => Delivery.watched x.subscriber x.kind e := by
    intro es
    rw [List.filter_eq_self]
    intro d hd
    obtain ⟨x, _, rfl⟩ := List.mem_map.mp hd
    rfl
  have hf := h.fire hp
  dsimp only [pending]
  rwa [hall]

theorem accounts_telling {d : Delivery} {ds : List Delivery} (p : Party)
    (h : c.Accounts (pending (.telling (d :: ds)) + owed)) :
    (c.send p d).2.Accounts
      (pending (.telling (if (c.send p d).1 then ds else d :: ds)) + owed) := by
  by_cases hd : d.isWatched = true
  · have hcons : pending (.telling (d :: ds)) = d ::ₘ pending (.telling ds) := by
      simp [pending, hd]
    rw [hcons, Multiset.cons_add] at h
    rcases h.send hd p with ⟨hsent, ha⟩ | ⟨hsent, ha⟩
    · rw [if_pos hsent]
      exact ha
    · rw [hsent, if_neg Bool.false_ne_true, hcons, Multiset.cons_add]
      exact ha
  · have hskip : pending (.telling (d :: ds)) = pending (.telling ds) := by
      simp [pending, hd]
    have hsend := h.send_unwatched hd p
    split
    · exact hskip ▸ hsend
    · exact hsend

end Notification

namespace Session

def pending : Stage → Multiset Delivery
  | .dropping _ rest => ↑(rest.map (Delivery.removed · .expired))
  | .expiring | .expired | .resubmitting _ | .reporting _ | .done => 0

theorem pending_dropping_cons (rs : List (Spot × Answer)) (e : Entry)
    (es : List Entry) :
    pending (.dropping rs (e :: es)) = .removed e .expired ::ₘ pending (.dropping rs es) :=
  rfl

variable {c c' : Client} {owed : Multiset Delivery}

theorem accounts_start (h : c.Accounts owed) (e : SessionEvent) :
    (start e c).2.Accounts (pending (start e c).1 + owed) := by
  have hn : (c.note (.handling e)).Accounts owed := h.note ⟨rfl, rfl, rfl⟩
  have hp : pending (start e c).1 = 0 := by cases e <;> rfl
  rw [hp, zero_add]
  cases e with
  | disconnected =>
    have hc : Client.Accounts { c.note (.handling .disconnected) with connected := false } owed :=
      hn.of_eq rfl rfl rfl
    exact hc.aside (.remark _ _)
  | reconnected => exact hn.of_eq rfl rfl rfl
  | expired => exact hn.aside (.remark _ _)

theorem accounts_recover (h : c.Accounts owed) :
    (recover c).2.Accounts (pending (recover c).1 + owed) := by
  have hn : ((c.count (.recoveries c.settings.recovery) 1).note
      (.recovering c.settings.recovery)).Accounts owed :=
    (h.count _ 1).note ⟨rfl, rfl, rfl⟩
  unfold recover
  dsimp only
  split
  · exact hn.drain
  · simpa [pending] using hn

theorem accounts_update {slot : Nat} {f : Task → Client → Option (Backoff.Stage × Client)}
    {st st' : Stage} (h : c.Accounts (pending st + owed))
    (hf : ∀ t b c', f t c = some (b, c') → c.Accounts owed → c'.Accounts owed)
    (hm : update slot f st c = some (st', c')) : c'.Accounts (pending st' + owed) := by
  obtain ⟨ts, t, b, rfl, _, hb, rfl⟩ := update_eq_some hm
  have h0 : c.Accounts owed := by simpa [pending] using h
  simpa [pending] using hf t b c' hb h0

theorem accounts_resume {st st' : Stage} {p : Party} (h : c.Accounts (pending st + owed))
    (hm : resume p st c = some (st', c')) : c'.Accounts (pending st' + owed) := by
  cases resumed hm with
  | expiring =>
    have hsend := h.send_unwatched (d := .state (.linkChange .expired))
      (by simp [Delivery.isWatched]) p
    split <;> exact hsend
  | expired => exact accounts_recover (by simpa [pending] using h)
  | started before after t unstarted => exact h.note ⟨rfl, rfl, rfl⟩
  | gathered ts rs results => exact h
  | telling rs e es =>
    rw [pending_dropping_cons, Multiset.cons_add] at h
    rcases h.send rfl p with ⟨hsent, ha⟩ | ⟨hsent, ha⟩
    · rw [if_pos hsent]
      exact ha
    · rw [hsent, if_neg Bool.false_ne_true, pending_dropping_cons, Multiset.cons_add]
      exact ha
  | kept s rs => exact h
  | dropped s f rs =>
    have h0 : c.Accounts owed := by simpa [pending] using h
    have hr : (c.remark (.rearmAbandoned s.path s.kind f)).Accounts owed :=
      h0.note ⟨rfl, rfl, rfl⟩
    exact hr.unregister_expired s.path (.only s.kind) .all
  | restored => exact h.of_eq rfl rfl rfl
  | reporting state =>
    have hsend := h.send_unwatched (d := .state (.linkChange state))
      (by simp [Delivery.isWatched]) p
    split <;> exact hsend

end Session

namespace Operation

/-- The announcements an operation still has to queue. -/
def pending : Operation → Multiset Delivery
  | arming .. | enrolment .. => 0
  | removal _ s => Removal.pending s
  | notification s => Notification.pending s
  | session s => Session.pending s

variable {c c' : Client} {owed : Multiset Delivery}

theorem pending_of_finished {o : Operation} (h : o.Finished) : o.pending = 0 := by
  cases o with
  | arming | enrolment => rfl
  | removal r st => cases st <;> first | rfl | cases h
  | notification st => cases st <;> first | rfl | cases h
  | session st => cases st <;> first | rfl | cases h

theorem accounts_start (h : c.Accounts owed) (o : Order) :
    (start o c).2.Accounts ((start o c).1.pending + owed) := by
  have hnone : c.Accounts (0 + owed) := by rwa [zero_add]
  have hstart := started o c
  generalize start o c = x at hstart ⊢
  cases hstart with
  | unread | unremoved | unenrolled | offering | ignored | announced | unhandled => exact hnone
  | asked => exact hnone.note ⟨rfl, rfl, rfl⟩
  | removing r => exact Removal.accounts_start h
  | fired e path _ place => exact Notification.accounts_fired h place
  | handling e => exact Session.accounts_start h e

theorem accounts_move {o o' : Operation} {m : Move} {p : Party}
    (h : c.Accounts (o.pending + owed)) (hm : o.move m p c = some (o', c')) :
    c'.Accounts (o'.pending + owed) := by
  cases moves hm with
  | failed a f => exact h
  | armed a x => exact h.arm a.entry
  | removing r st st' c' resume => exact Removal.accounts_resume h resume
  | settling r slot x st st' c' answer => exact Removal.accounts_answer h answer
  | refused b => exact h
  | enrolled b q => exact h.of_eq rfl rfl rfl
  | lining b q => exact h.of_eq rfl rfl rfl
  | notified => exact h
  | notifying d ds => exact Notification.accounts_telling p h
  | handling st st' c' resume => exact Session.accounts_resume h resume
  | answered slot x st st' c' answer =>
    exact Session.accounts_update h
      (fun t b c' hb h0 => h0.aside (.of_remarked (Backoff.remarked_answer hb))) answer
  | timedOut slot st st' c' timeOut =>
    exact Session.accounts_update h
      (fun t b c' hb h0 => h0.aside (.of_remarked (Backoff.remarked_timeOut hb))) timeOut
  | retried slot st st' c' retry =>
    refine Session.accounts_update h (fun t b c' hb h0 => ?_) retry
    rw [Backoff.submitted_retry hb]
    exact h0.note ⟨rfl, rfl, rfl⟩

end Operation

namespace Engine

def pending (s : Engine) : Multiset Delivery :=
  s.tasks.bind fun x => x.2.pending

theorem pending_of_cons {s : Engine} {p : Party} {o : Operation}
    {rest : Multiset (Party × Operation)} (h : s.tasks = (p, o) ::ₘ rest) :
    s.pending = o.pending + rest.bind fun x => x.2.pending := by
  rw [pending, h, Multiset.cons_bind]

theorem tasks_of_silent {s : Engine} (h : s.silent = true) : s.tasks = 0 := by
  simp only [silent, orphaned, Bool.and_eq_true, Bool.not_eq_true', List.isEmpty_iff] at h
  obtain ⟨⟨⟨_, hc⟩, hw⟩, hl⟩ := h
  have hwt : s.worker.task? = none := by
    cases hs : s.worker <;> simp_all [Worker.isStopped, Worker.task?]
  have hlt : s.listener.task? = none := by
    cases hs : s.listener <;> simp_all [Listener.isStopped, Listener.task?]
  rw [tasks, hc, hwt, hlt]
  rfl

theorem silent_act {a : Action} {s t : Engine} (ho : s.client.closed = false)
    (hs : s.silent = true) (h : act a s = some t) : t.silent = true := by
  have hs' := hs
  simp only [silent, orphaned, Bool.and_eq_true, Bool.not_eq_true', List.isEmpty_iff] at hs'
  obtain ⟨⟨⟨hheld, hcalls⟩, hworker⟩, hlistener⟩ := hs'
  have hnone : ∀ id, s.call? id = none := fun id => by simp [call?, hcalls]
  cases act_change ho h with
  | begun o held => rw [hheld] at held; cases held
  | moved p m o o' c action task move =>
    cases p with
    | caller id => rw [task?, hnone id] at task; cases task
    | remover => cases hw : s.worker <;> simp_all [task?, Worker.task?, Worker.isStopped]
    | listener => cases hl : s.listener <;> simp_all [task?, Listener.task?, Listener.isStopped]
  | concluded b r worker => rw [worker] at hworker; cases hworker
  | reported f e sent c worker send => rw [worker] at hworker; cases hworker
  | took b q worker take => rw [worker] at hworker; cases hworker
  | retired worker take orphaned => rw [worker] at hworker; cases hworker
  | undertook b worker => rw [worker] at hworker; cases hworker
  | stirred w action same =>
    generalize s.worker = w' at hworker same
    cases same <;> cases hworker
  | lagged listener => rw [listener] at hlistener; cases hlistener
  | heard e es listener unread => rw [listener] at hlistener; cases hlistener
  | deafened listener => rw [listener] at hlistener; cases hlistener
  | abandoned id o task => rw [hnone id] at task; cases task
  | collected id o x task outcome => rw [hnone id] at task; cases task
  | released => simpa [silent, orphaned, hcalls] using And.intro hworker hlistener
  | dispatched | silenced | fed | feedEnded | performed => exact hs

structure Accounted (s : Engine) : Prop where
  orderly : s.Orderly
  balanced : s.client.Balanced s.pending
  served : s.client.deliveries.isOpen = true ∨ s.silent = true

/-- The announcements that a call takes along when it is given up. -/
def forgone (s : Engine) : Action → Multiset Delivery
  | .abandon id => ((s.call? id).map Operation.pending).getD 0
  | _ => 0

/-- The books balance, given what the calls that were given up took along. -/
structure Covered (s : Engine) (lost : Multiset Delivery) : Prop where
  orderly : s.Orderly
  balanced : s.client.Balanced (s.pending + lost)
  served : s.client.deliveries.isOpen = true ∨ s.silent = true

theorem covered_zero {s : Engine} : s.Covered 0 ↔ s.Accounted := by
  constructor
  · rintro ⟨horderly, hbalanced, hserved⟩
    exact ⟨horderly, by rwa [add_zero] at hbalanced, hserved⟩
  · rintro ⟨horderly, hbalanced, hserved⟩
    exact ⟨horderly, by rwa [add_zero], hserved⟩

theorem accounted_initial {settings : Settings} {feed : Option Nat} {s : Engine}
    (h : build settings feed = .built s) : s.Accounted := by
  obtain ⟨d, r, hd, _, rfl⟩ := build_eq h
  have htasks : (initial settings d r feed).pending = 0 := by
    cases feed <;> rfl
  have hopen : d.isOpen = true := by
    rw [(Queue.ofCapacity_eq_ok.mp hd).2.2]
  refine ⟨orderly_initial settings d r feed, ?_, .inl hopen⟩
  rw [htasks]
  let blank : Client := { (initial settings d r feed).client with journal := [] }
  have hblank : blank.Balanced 0 :=
    ⟨Registry.live_empty.symm, rfl, fun x hx => absurd hx (by simp [blank, Client.consumed])⟩
  by_cases hl : Settings.largeQueue < settings.eventQueueSize
  · exact hblank.of_plain rfl [.remarked (.largeQueue settings.eventQueueSize)]
      (by simp [blank, initial, hl]) (by simp [Occurrence.Plain, Occurrence.armed?,
        Occurrence.consumptions, Occurrence.announced?])
  · exact hblank.of_eq rfl (by simp [blank, initial, hl])

section

variable {a : Action} {s t : Engine} {lost lost' : Multiset Delivery}

theorem Covered.accounts (h : s.Covered lost) {x : Party × Operation} (hx : x ∈ s.tasks) :
    s.client.Accounts (s.pending + lost) := by
  refine ⟨h.balanced, h.served.resolve_right fun hsilent => ?_⟩
  rw [tasks_of_silent hsilent] at hx
  exact absurd hx (Multiset.notMem_zero x)

theorem Covered.aside (h : s.Covered lost) (ho : s.client.closed = false) (ha : act a s = some t)
    (haside : s.client.Aside t.client) (hp : s.pending + lost = t.pending + lost') :
    t.Covered lost' :=
  ⟨orderly_act h.orderly ha, hp ▸ h.balanced.aside haside,
    h.served.imp haside.opens.trans fun hsilent => silent_act ho hsilent ha⟩

theorem covered_abandon {id : Nat} (h : s.Covered lost) (ho : s.client.closed = false)
    (ha : act (.abandon id) s = some t) : t.Covered (s.forgone (.abandon id) + lost) := by
  obtain ⟨o, hcall, rfl⟩ := Option.map_eq_some_iff.mp ha
  refine h.aside ho ha (.of_eq rfl rfl (Queue.isOpen_withdraw _ _) rfl) ?_
  have hforgone : s.forgone (.abandon id) = o.pending := by rw [forgone, hcall]; rfl
  rw [hforgone, pending_of_cons (filtered_tasks h.orderly _ hcall), add_comm o.pending, add_assoc]
  rfl

/-- Whatever is done on an open client, and whichever calls are given up, the books balance. -/
theorem covered_act (hs : s.Covered lost) (ho : s.client.closed = false) (h : act a s = some t) :
    t.Covered (s.forgone a + lost) := by
  by_cases habandon : ∃ id, a = .abandon id
  · obtain ⟨id, rfl⟩ := habandon
    exact covered_abandon hs ho h
  have hnone : s.forgone a = 0 := by
    cases a with
    | abandon id => exact absurd ⟨id, rfl⟩ habandon
    | _ => rfl
  have horderly := orderly_act hs.orderly h
  rw [hnone, zero_add]
  cases act_turnover hs.orderly ho h with
  | started p o taken origin fresh after client handed =>
    have hopen := hs.served.resolve_right fun hsilent => by
      rw [tasks_of_silent (silent_act ho hsilent h)] at after
      exact absurd after Multiset.cons_ne_zero.symm
    have hstart : t.client.Accounts (t.pending + lost) := by
      rw [pending_of_cons after, client, add_assoc]
      exact Operation.accounts_start ⟨hs.balanced, hopen⟩ o
    exact ⟨horderly, hstart.toBalanced, .inl hstart.opens⟩
  | moved p m o o' rest action before move after handed =>
    have hacc := hs.accounts (before ▸ Multiset.mem_cons_self (p, o) rest)
    rw [pending_of_cons before, add_assoc] at hacc
    have hmove := Operation.accounts_move hacc move
    have hpending : t.pending = o'.pending + rest.bind fun x => x.2.pending := by
      rcases after with after | ⟨rfl, after⟩
      · exact pending_of_cons after
      · rw [pending, after]
        exact (zero_add _).symm
    rw [← add_assoc, ← hpending] at hmove
    exact ⟨horderly, hmove.toBalanced, .inl hmove.opens⟩
  | ended p o rest inside before finished after aside handed =>
    refine hs.aside ho h aside ?_
    rw [pending_of_cons before, Operation.pending_of_finished finished, zero_add, pending, after]
  | abandoned id o rest action => exact absurd ⟨id, action⟩ habandon
  | beside inside after aside handed => exact hs.aside ho h aside (by rw [pending, pending, after])
  | silenced inside silent after =>
    subst after
    exact ⟨horderly, (hs.balanced.aside (.remark _ _)).of_eq rfl rfl, .inr silent⟩

end

/-- The engine after these actions, if each was possible on an open client. -/
def follow (as : List Action) (s : Engine) : Option Engine :=
  as.foldlM (fun s a => if s.client.closed then none else act a s) s

theorem reachable_of_follow {settings : Settings} {feed : Option Nat} {as : List Action}
    {s t : Engine} (hr : Reachable settings feed s) (h : follow as s = some t) :
    Reachable settings feed t :=
  hr.run (run_of_foldlM (fun a _ _ _ ht => ⟨a, (Option.ite_none_left_eq_some.mp ht).2⟩) h)

theorem reachable_of_fresh {as : List Action} {t : Engine} (h : follow as fresh = some t) :
    Reachable {} none t :=
  reachable_of_follow (.built build_fresh) h

end Engine

end NodeWatch
