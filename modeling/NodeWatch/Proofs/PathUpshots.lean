import NodeWatch.Proofs.ArmingAdmission
import NodeWatch.Proofs.SoleRemoval
import NodeWatch.Proofs.ClosedClient

/-! What an operation on one path comes to when nobody else touches that path. It is read off the
entries that it finds there and the answers that it gets, whatever the registry holds elsewhere and
whatever goes on there. -/

namespace NodeWatch

/-- What an operation comes to: what it returns, what it asks of the server, what it sends, and whom
it leaves at its path. -/
structure Upshot where
  outcome : Outcome
  requests : List Request
  deliveries : List Delivery
  left : Holders

def Order.path? : Order → Option String
  | .arm a => some a.path
  | .remove r => some r.path
  | .notify e => e.path
  | .enrol _ | .session _ => none

/-! ### The entries at one path -/

namespace Registry

variable {r r' : Registry} {path path' : String}

theorem atPath_ext (h : ∀ k, r.holders path k = r'.holders path' k) :
    r.atPath path = r'.atPath path' := by
  have hdata := h .data
  have hchildren := h .children
  simp only [holders, Holders.of] at hdata hchildren
  cases hr : r.atPath path
  cases hr' : r'.atPath path'
  simp_all

theorem eq_of_atPath (h : ∀ path, r.atPath path = r'.atPath path) : r = r' :=
  ext_holders fun path k => congrArg (Holders.of · k) (h path)

theorem holders_of_atPath (h : r.atPath path = r'.atPath path) (k : Kind) :
    r.holders path k = r'.holders path k :=
  congrArg (Holders.of · k) h

theorem atPath_takeOut (r : Registry) (path : String) (p : Kind → Subscriber → Bool)
    (path' : String) : (r.takeOut path p).2.atPath path' =
      if path = path' then (r.atPath path).keep fun k s => !p k s else r.atPath path' :=
  atPath_replace r path _ (Holders.distinct_keep (r.distinct_atPath path) _) path'

theorem atPath_insert (r : Registry) (path : String) (k : Kind) (s : Subscriber) (path' : String) :
    (r.insert path k s).2.atPath path' =
      if path = path' ∧ s ∉ r.holders path k then
        (r.atPath path).put k (r.holders path k ++ [s])
      else r.atPath path' := by
  rw [insert]
  by_cases hs : s ∈ r.holders path k
  · rw [dif_pos hs, if_neg fun h => h.2 hs]
  · rw [dif_neg hs, atPath_replace]
    by_cases hp : path = path' <;> simp [hp, hs]
    all_goals simp_all

theorem takeOut_congr (h : r.atPath path = r'.atPath path) (p : Kind → Subscriber → Bool) :
    (r.takeOut path p).1 = (r'.takeOut path p).1 ∧
      (r.takeOut path p).2.atPath path = (r'.takeOut path p).2.atPath path := by
  rw [atPath_takeOut, atPath_takeOut, if_pos rfl, if_pos rfl, h]
  exact ⟨congrArg (Holders.entries · path p) h, rfl⟩

theorem insert_congr (h : r.atPath path = r'.atPath path) (k : Kind) (s : Subscriber) :
    (r.insert path k s).2.atPath path = (r'.insert path k s).2.atPath path := by
  rw [atPath_insert, atPath_insert, h, holders_of_atPath h]

end Registry

namespace Removal

variable {r : RemovalRequest} {reg reg' : Registry}

theorem plan_congr (h : reg.atPath r.path = reg'.atPath r.path) : plan r reg = plan r reg' := by
  have hholders := Registry.holders_of_atPath h
  simp only [plan, Registry.subscriberKinds, Registry.registeredKinds, hholders]

theorem selected_congr (h : reg.atPath r.path = reg'.atPath r.path) (k : Kind) :
    selected r reg k = selected r reg' k := by
  rw [selected, selected, Registry.holders_of_atPath h]

end Removal

/-! ### What each operation comes to -/

section

variable (reply : Request → Answer)

/-- What is left when the server has given this answer. -/
def Arming.left (a : Arming) (reg : Registry) : Answer → Holders
  | .ok _ => (reg.insert a.path a.read.kind a.subscriber).2.atPath a.path
  | .error _ => reg.atPath a.path

def Arming.upshot (a : Arming) (reg : Registry) : Upshot :=
  match Path.validate a.path with
  | .error f => ⟨.read (.error f), [], [], reg.atPath a.path⟩
  | .ok () =>
    let q := .register a.path a.read
    ⟨.read (reply q), [q], [], left a reg (reply q)⟩

/-- What is left when the entries of these kinds that a removal selects are gone. -/
def Removal.left (r : RemovalRequest) (reg : Registry) (ks : List Kind) : Holders :=
  (reg.takeOut r.path fun k s => decide (k ∈ ks) && r.target.selects s).2.atPath r.path

def Removal.upshotLocal (r : RemovalRequest) (reg : Registry) : Upshot :=
  let es := r.kind.kinds.flatMap (selected r reg)
  ⟨.removal (if es = [] then nothing r else .ok es), [], confirmations es, left r reg r.kind.kinds⟩

/-- The server is asked about the kinds that the plan has for it. The entries of those that it drops
go, with those that are settled here. -/
def Removal.upshotRemote (r : RemovalRequest) (reg : Registry) : Upshot :=
  let p := plan r reg
  let verdicts := p.server.map fun k => (k, reply (.remove r.path k))
  let ks := departed r verdicts p.here
  let es := ks.flatMap (selected r reg)
  ⟨.removal (settlement r p verdicts es).result, requests r p.server, confirmations es,
    left r reg ks⟩

def Removal.upshot (r : RemovalRequest) (reg : Registry) : Upshot :=
  match Path.validate r.path with
  | .error f => ⟨.removal (.error f), [], [], reg.atPath r.path⟩
  | .ok () => if r.registryOnly then upshotLocal r reg else upshotRemote reply r reg

/-- What the subscribers of these entries are told. -/
def Notification.firings (e : WatchedEvent) (es : List Entry) : List Delivery :=
  es.map fun x => .watched x.subscriber x.kind e

def Notification.upshot (e : WatchedEvent) (path : String) (reg : Registry) : Upshot :=
  let (es, left) := reg.takeTriggered path e.type
  ⟨.handled, [], firings e es, left.atPath path⟩

def Order.upshotOpen (path : String) (reg : Registry) (o : Order) : Upshot :=
  match o with
  | .arm a => a.upshot reply reg
  | .remove r => Removal.upshot reply r reg
  | .notify e => Notification.upshot e path reg
  | .enrol _ | .session _ => ⟨o.refusal, [], [], reg.atPath path⟩

/-- What an order on this path comes to. A closed client refuses it. -/
def Order.upshot (path : String) (c : Client) (o : Order) : Upshot :=
  if c.closed then ⟨o.refusal, [], [], c.registry.atPath path⟩
  else o.upshotOpen reply path c.registry

variable {reply} {reg reg' : Registry} {path : String}

theorem Arming.left_congr {a : Arming} (h : reg.atPath a.path = reg'.atPath a.path) :
    a.left reg = a.left reg' := by
  funext x
  cases x with
  | ok y => exact Registry.insert_congr h a.read.kind a.subscriber
  | error f => exact h

theorem Arming.upshot_congr {a : Arming} (h : reg.atPath a.path = reg'.atPath a.path) :
    a.upshot reply reg = a.upshot reply reg' := by
  rw [upshot, upshot, h, left_congr h]

theorem Removal.left_congr {r : RemovalRequest} (h : reg.atPath r.path = reg'.atPath r.path) :
    left r reg = left r reg' :=
  funext fun _ => (Registry.takeOut_congr h _).2

theorem Removal.upshot_congr {r : RemovalRequest} (h : reg.atPath r.path = reg'.atPath r.path) :
    upshot reply r reg = upshot reply r reg' := by
  have hselected : selected r reg = selected r reg' := funext (selected_congr h)
  unfold upshot
  split
  · rw [h]
  · rw [upshotLocal, upshotLocal, upshotRemote, upshotRemote, hselected, left_congr h, plan_congr h]

theorem Notification.upshot_congr (e : WatchedEvent) (h : reg.atPath path = reg'.atPath path) :
    upshot e path reg = upshot e path reg' := by
  obtain ⟨htaken, hleft⟩ := Registry.takeOut_congr h fun k _ => e.type.triggered.contains k
  simp only [upshot, Registry.takeTriggered, htaken, hleft]

theorem Order.upshotOpen_congr {o : Order} (ho : o.path? = some path)
    (h : reg.atPath path = reg'.atPath path) :
    o.upshotOpen reply path reg = o.upshotOpen reply path reg' := by
  cases o with
  | arm a =>
    obtain rfl := Option.some.inj ho
    exact Arming.upshot_congr h
  | remove r =>
    obtain rfl := Option.some.inj ho
    exact Removal.upshot_congr h
  | notify e => exact Notification.upshot_congr e h
  | enrol b => cases ho
  | session e => cases ho

/-- Nothing but the entries at its path, the answers and whether the client is closed has a part in
what an order comes to. -/
theorem Order.upshot_congr {o : Order} {c c' : Client} (ho : o.path? = some path)
    (hclosed : c.closed = c'.closed) (h : c.registry.atPath path = c'.registry.atPath path) :
    o.upshot reply path c = o.upshot reply path c' := by
  rw [upshot, upshot, hclosed, h, upshotOpen_congr ho h]

end

/-! ### What an operation leaves alone -/

/-- Nothing changed but at this path. -/
def Client.Spares (c : Client) (path : String) (c' : Client) : Prop :=
  ∀ q, q ≠ path → c'.registry.atPath q = c.registry.atPath q

namespace Client.Spares

variable {c c' : Client} {path : String}

theorem of_eq (h : c'.registry = c.registry) (path : String) : c.Spares path c' := by
  intro q _
  rw [h]

theorem takeOut (p : Kind → Subscriber → Bool) (h : c'.registry = (c.registry.takeOut path p).2) :
    c.Spares path c' := by
  intro q hq
  rw [h, Registry.atPath_takeOut, if_neg (Ne.symm hq)]

theorem of_thins {r : RemovalRequest} (h : Removal.Thins r c c') : c.Spares r.path c' := by
  induction h with
  | none => exact of_eq rfl _
  | remarked _ _ ih => exact ih
  | taken _ _ ih => exact fun q hq => (takeOut _ rfl q hq).trans (ih q hq)

theorem arm (c : Client) (e : Entry) : c.Spares e.path (c.arm e) := by
  intro q hq
  rw [(c.admits_arm e).registry_eq, Registry.atPath_insert, if_neg fun h => hq h.1.symm]

end Client.Spares

namespace Removal

variable {r : RemovalRequest} {p : Party} {st st' : Stage} {c c' : Client}

theorem spares_start (r : RemovalRequest) (c : Client) : c.Spares r.path (start r c).2 := by
  have h := started r c
  generalize start r c = x at h ⊢
  cases h with
  | invalid | idle | asking => exact .of_eq rfl _
  | unmatched | taken => exact .takeOut _ rfl

theorem spares_resume (h : resume r p st c = some (st', c')) : c.Spares r.path c' := by
  cases resumed h with
  | advanced pl answers => exact .of_thins (thins_advance pl answers c)
  | telling e es o => exact .of_eq (Client.registry_send c p _) _
  | asked | told | finished | passed | rearming => exact .of_eq rfl _

end Removal

namespace Operation

variable {o : Order} {op op' : Operation} {path : String} {m : Move} {p : Party} {c c' : Client}

/-- The operation is about this path. -/
def On (path : String) : Operation → Prop
  | arming a _ => a.path = path
  | removal r _ => r.path = path
  | notification _ => True
  | enrolment .. | session _ => False

theorem on_start (ho : o.path? = some path) (c : Client) :
    (start o c).1.On path ∧ c.Spares path (start o c).2 := by
  have h := started o c
  generalize start o c = x at h ⊢
  cases h with
  | unread | asked | unremoved => exact ⟨Option.some.inj ho, .of_eq rfl _⟩
  | removing r =>
    obtain rfl := Option.some.inj ho
    exact ⟨rfl, Removal.spares_start r c⟩
  | ignored | announced => exact ⟨trivial, .of_eq rfl _⟩
  | fired e path' _ place =>
    obtain rfl : path' = path := Option.some.inj (place.symm.trans ho)
    exact ⟨trivial, .takeOut _ (Client.registry_fire c path' e)⟩
  | unenrolled | offering | unhandled | handling => cases ho

theorem on_move (h : op.On path) (hm : op.move m p c = some (op', c')) :
    op'.On path ∧ c.Spares path c' := by
  cases moves hm with
  | failed a f => exact ⟨h, .of_eq rfl _⟩
  | armed a x =>
    obtain rfl : a.path = path := h
    exact ⟨rfl, .arm c a.entry⟩
  | removing r st st' c' resume =>
    obtain rfl : r.path = path := h
    exact ⟨rfl, Removal.spares_resume resume⟩
  | settling r slot x st st' c' answer =>
    obtain rfl : r.path = path := h
    exact ⟨rfl, Client.Spares.of_thins (Removal.thins_answer answer)⟩
  | notified => exact ⟨trivial, .of_eq rfl _⟩
  | notifying d ds => exact ⟨trivial, .of_eq (Client.registry_send c p d) _⟩
  | refused | enrolled | lining => exact h.elim
  | handling | answered | timedOut | retried => exact h.elim

end Operation

end NodeWatch
