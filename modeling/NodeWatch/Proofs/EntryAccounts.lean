import NodeWatch.Proofs.AsideChanges
import NodeWatch.Proofs.RegistryEntries

/-! The books of a client. Every entry that was ever registered is still live or was consumed, and
every consumption was announced to the entry's own subscriber or is still owed by the operation
that took the entry out. -/

namespace NodeWatch

structure Consumption where
  cause : Cause
  entry : Entry
  deriving DecidableEq, Repr

/-- What the subscriber of a consumed entry is told. -/
def Consumption.announcement (x : Consumption) : Delivery :=
  match x.cause with
  | .fired event => .watched x.entry.subscriber x.entry.kind event
  | .removed => .removed x.entry .syncConnected
  | .expired => .removed x.entry .expired

/-- An event consumes entries at its own path, of a kind that it triggers. -/
def Consumption.Due (x : Consumption) : Prop :=
  match x.cause with
  | .fired event => event.path = some x.entry.path ∧ x.entry.kind ∈ event.type.triggered
  | .removed | .expired => True

/-- The entry whose subscriber a delivery goes to. -/
def Delivery.entry? : Delivery → Option Entry
  | .watched s k e => e.path.map fun p => ⟨p, k, s⟩
  | .state _ | .completion .. => none

def Delivery.isWatched : Delivery → Bool
  | .watched .. => true
  | .state _ | .completion .. => false

theorem Consumption.entry?_announcement {x : Consumption} (h : x.Due) :
    x.announcement.entry? = some x.entry := by
  obtain ⟨cause, e⟩ := x
  cases cause with
  | fired event =>
    have hp : event.path = some e.path := h.1
    simp [announcement, Delivery.entry?, hp]
  | removed => rfl
  | expired => rfl

namespace Occurrence

def armed? : Occurrence → Option Entry
  | armed e => some e
  | _ => none

def consumptions : Occurrence → List Consumption
  | taken cause es => es.map (Consumption.mk cause)
  | _ => []

def announced? : Occurrence → Option Delivery
  | queued d => if d.isWatched then some d else none
  | _ => none

/-- Nothing is registered, consumed or announced. -/
def Plain (o : Occurrence) : Prop :=
  o.armed? = none ∧ o.consumptions = [] ∧ o.announced? = none

theorem plain_of_isAside {o : Occurrence} (h : o.isAside = true) : o.Plain := by
  cases o with
  | queued d => cases d <;> first | exact ⟨rfl, rfl, rfl⟩ | cases h
  | asked | armed | taken | settled | handling | recovering => cases h
  | dropped | called | remarked => exact ⟨rfl, rfl, rfl⟩

end Occurrence

namespace Client

def armed (c : Client) : Multiset Entry :=
  ↑(c.journal.filterMap Occurrence.armed?)

def consumed (c : Client) : Multiset Consumption :=
  ↑(c.journal.flatMap Occurrence.consumptions)

/-- The deliveries to subscribers of entries that were ever put on the queue. -/
def announced (c : Client) : Multiset Delivery :=
  ↑(c.journal.filterMap Occurrence.announced?)

/-- The books balance, given the announcements that are still to be queued. -/
structure Balanced (c : Client) (owed : Multiset Delivery) : Prop where
  entries : c.armed = c.registry.live + c.consumed.map Consumption.entry
  deliveries : c.consumed.map Consumption.announcement = c.announced + owed
  due : ∀ x ∈ c.consumed, x.Due

structure Accounts (c : Client) (owed : Multiset Delivery) : Prop extends c.Balanced owed where
  opens : c.deliveries.isOpen = true

variable {c c' : Client} {owed : Multiset Delivery}

theorem Balanced.of_plain (h : c.Balanced owed) (hr : c'.registry = c.registry)
    (os : List Occurrence) (hj : c'.journal = os ++ c.journal) (ho : ∀ o ∈ os, o.Plain) :
    c'.Balanced owed := by
  have ha : os.filterMap Occurrence.armed? = [] :=
    List.filterMap_eq_nil_iff.mpr fun o hm => (ho o hm).1
  have hc : os.flatMap Occurrence.consumptions = [] :=
    List.flatMap_eq_nil_iff.mpr fun o hm => (ho o hm).2.1
  have hq : os.filterMap Occurrence.announced? = [] :=
    List.filterMap_eq_nil_iff.mpr fun o hm => (ho o hm).2.2
  have harmed : c'.armed = c.armed := by simp [armed, hj, ha]
  have hconsumed : c'.consumed = c.consumed := by simp [consumed, hj, hc]
  have hannounced : c'.announced = c.announced := by simp [announced, hj, hq]
  refine ⟨?_, ?_, ?_⟩
  · rw [harmed, hr, hconsumed, h.entries]
  · rw [hconsumed, hannounced, h.deliveries]
  · rw [hconsumed]
    exact h.due

theorem Balanced.of_eq (h : c.Balanced owed) (hr : c'.registry = c.registry)
    (hj : c'.journal = c.journal) : c'.Balanced owed :=
  h.of_plain hr [] hj (by simp)

theorem Balanced.note (h : c.Balanced owed) {o : Occurrence} (ho : o.Plain) :
    (c.note o).Balanced owed :=
  h.of_plain rfl [o] rfl (by simp [ho])

theorem Balanced.aside (h : c.Balanced owed) (ha : c.Aside c') : c'.Balanced owed := by
  obtain ⟨os, hj, ho⟩ := ha.journal
  exact h.of_plain ha.registry os hj fun o hm => Occurrence.plain_of_isAside (ho o hm)

theorem Balanced.arm (h : c.Balanced owed) (e : Entry) : (c.arm e).Balanced owed := by
  simp only [Client.arm]
  cases hi : c.registry.insert e.path e.kind e.subscriber with
  | mk new r =>
    cases new with
    | false => exact h
    | true =>
      have hn : (c.registry.insert e.path e.kind e.subscriber).1 = true := by rw [hi]
      have hlive : r.live = e ::ₘ c.registry.live := by
        have := Registry.live_insert hn
        rwa [hi] at this
      refine ⟨?_, h.deliveries, h.due⟩
      change e ::ₘ c.armed = r.live + c.consumed.map Consumption.entry
      rw [h.entries, hlive, Multiset.cons_add]

theorem Balanced.take (h : c.Balanced owed) {cause : Cause} {es : List Entry} {r : Registry}
    (hr : c.registry.live = ↑es + r.live) (hd : ∀ e ∈ es, Consumption.Due ⟨cause, e⟩)
    (hr' : c'.registry = r) (hj : c'.journal = .taken cause es :: c.journal) :
    c'.Balanced (↑(es.map fun e => Consumption.announcement ⟨cause, e⟩) + owed) := by
  have harmed : c'.armed = c.armed := by
    rw [armed, armed, hj]
    rfl
  have hannounced : c'.announced = c.announced := by
    rw [announced, announced, hj]
    rfl
  have hconsumed : c'.consumed = ↑(es.map (Consumption.mk cause)) + c.consumed := by
    rw [consumed, consumed, hj, Multiset.coe_add]
    rfl
  have hentries : Multiset.map Consumption.entry ↑(es.map (Consumption.mk cause)) = ↑es := by
    simp [Function.comp_def]
  refine ⟨?_, ?_, ?_⟩
  · rw [harmed, hconsumed, hr', Multiset.map_add, hentries, h.entries, hr, add_assoc,
      add_left_comm]
  · rw [hconsumed, hannounced, Multiset.map_add, h.deliveries, Multiset.map_coe, List.map_map,
      add_left_comm]
    rfl
  · intro x hx
    rw [hconsumed, Multiset.mem_add, Multiset.mem_coe] at hx
    rcases hx with hx | hx
    · obtain ⟨e, he, rfl⟩ := List.mem_map.mp hx
      exact hd e he
    · exact h.due x hx

theorem Balanced.unregister (h : c.Balanced owed) (cause : Cause) (path : String)
    (kind : Selector) (target : Target) (hd : ∀ e, Consumption.Due ⟨cause, e⟩) :
    (c.unregister cause path kind target).2.Balanced
      (↑((c.unregister cause path kind target).1.map fun e =>
        Consumption.announcement ⟨cause, e⟩) + owed) :=
  h.take (Registry.live_takeOut _ _ _) (fun e _ => hd e) rfl rfl

theorem Balanced.drain (h : c.Balanced owed) :
    c.drain.2.Balanced
      (↑(c.drain.1.map fun e => Consumption.announcement ⟨.expired, e⟩) + owed) := by
  refine h.take (r := .empty) ?_ (fun _ _ => trivial) rfl rfl
  rw [Registry.live_empty, add_zero]
  rfl

theorem Balanced.fire (h : c.Balanced owed) {path : String} {e : WatchedEvent}
    (hp : e.path = some path) :
    (c.fire path e).2.Balanced
      (↑((c.fire path e).1.map fun x => Delivery.watched x.subscriber x.kind e) + owed) := by
  have hlive := Registry.live_takeOut c.registry path fun k _ => e.type.triggered.contains k
  have hdue : ∀ x ∈ (c.registry.takeTriggered path e.type).1, Consumption.Due ⟨.fired e, x⟩ := by
    intro x hx
    obtain ⟨_, hxp, hxk⟩ := Registry.mem_takeOut_fst.mp hx
    exact ⟨by rw [hp, hxp], by simpa using hxk⟩
  simp only [Client.fire]
  cases hf : c.registry.takeTriggered path e.type with
  | mk es r =>
    rw [hf] at hdue
    replace hlive : c.registry.live = ↑es + r.live := by
      have := hlive
      rwa [show c.registry.takeOut path _ = (es, r) from hf] at this
    cases es with
    | nil =>
      refine ⟨?_, ?_, h.due⟩
      · change c.armed = r.live + _
        rw [h.entries, hlive, Multiset.coe_nil, zero_add]
        rfl
      · rw [List.map_nil, Multiset.coe_nil, zero_add]
        exact h.deliveries
    | cons x xs => exact h.take hlive hdue rfl rfl

theorem Accounts.of_eq (h : c.Accounts owed) (hr : c'.registry = c.registry)
    (hq : c'.deliveries = c.deliveries) (hj : c'.journal = c.journal) : c'.Accounts owed :=
  ⟨h.toBalanced.of_eq hr hj, by rw [hq, h.opens]⟩

theorem Accounts.count (h : c.Accounts owed) (m : Meter) (n : Nat) :
    (c.count m n).Accounts owed :=
  h.of_eq rfl rfl rfl

theorem Accounts.note (h : c.Accounts owed) {o : Occurrence} (ho : o.Plain) :
    (c.note o).Accounts owed :=
  ⟨h.toBalanced.note ho, h.opens⟩

theorem Accounts.unregister_removed (h : c.Accounts owed) (path : String) (kind : Selector)
    (target : Target) :
    (c.unregister .removed path kind target).2.Accounts
      (↑((c.unregister .removed path kind target).1.map (Delivery.removed · .syncConnected)) +
        owed) :=
  ⟨h.toBalanced.unregister .removed path kind target fun _ => trivial, h.opens⟩

theorem Accounts.unregister_expired (h : c.Accounts owed) (path : String) (kind : Selector)
    (target : Target) :
    (c.unregister .expired path kind target).2.Accounts
      (↑((c.unregister .expired path kind target).1.map (Delivery.removed · .expired)) + owed) :=
  ⟨h.toBalanced.unregister .expired path kind target fun _ => trivial, h.opens⟩

/-- An announcement is queued, or its party lines up and still owes it. -/
theorem Accounts.send {d : Delivery} (h : c.Accounts (d ::ₘ owed)) (hd : d.isWatched = true)
    (p : Party) :
    ((c.send p d).1 = true ∧ (c.send p d).2.Accounts owed) ∨
      ((c.send p d).1 = false ∧ (c.send p d).2.Accounts (d ::ₘ owed)) := by
  simp only [Client.send]
  rcases Queue.offer_of_open h.opens p d with ⟨q, hq, ho⟩ | ⟨q, hq, ho⟩
  · rw [hq]
    refine .inl ⟨rfl, ⟨h.entries, ?_, h.due⟩, ho⟩
    have hannounced : ({ c with deliveries := q }.note (.queued d)).announced =
        d ::ₘ c.announced := by
      simp [announced, Client.note, Occurrence.announced?, hd]
    rw [hannounced, Multiset.cons_add, ← Multiset.add_cons]
    exact h.deliveries
  · rw [hq]
    exact .inr ⟨rfl, h.toBalanced.of_eq rfl rfl, ho⟩

theorem Accounts.send_unwatched (h : c.Accounts owed) {d : Delivery} (hd : ¬d.isWatched = true)
    (p : Party) : (c.send p d).2.Accounts owed := by
  simp only [Client.send]
  rcases Queue.offer_of_open h.opens p d with ⟨q, hq, ho⟩ | ⟨q, hq, ho⟩
  · rw [hq]
    have hb : Client.Balanced { c with deliveries := q } owed := h.toBalanced.of_eq rfl rfl
    exact ⟨hb.note ⟨rfl, rfl, by simp [Occurrence.announced?, hd]⟩, ho⟩
  · rw [hq]
    exact ⟨h.toBalanced.of_eq rfl rfl, ho⟩

theorem Accounts.aside (h : c.Accounts owed) (ha : c.Aside c') : c'.Accounts owed :=
  ⟨h.toBalanced.aside ha, ha.opens.trans h.opens⟩

theorem Accounts.fire (h : c.Accounts owed) {path : String} {e : WatchedEvent}
    (hp : e.path = some path) :
    (c.fire path e).2.Accounts
      (↑((c.fire path e).1.map fun x => Delivery.watched x.subscriber x.kind e) + owed) := by
  refine ⟨h.toBalanced.fire hp, ?_⟩
  simp only [Client.fire]
  split <;> exact h.opens

theorem Accounts.arm (h : c.Accounts owed) (e : Entry) : (c.arm e).Accounts owed := by
  refine ⟨h.toBalanced.arm e, ?_⟩
  simp only [Client.arm]
  split <;> exact h.opens

theorem Accounts.drain (h : c.Accounts owed) :
    c.drain.2.Accounts (↑(c.drain.1.map (Delivery.removed · .expired)) + owed) :=
  ⟨h.toBalanced.drain, h.opens⟩

end Client

end NodeWatch
