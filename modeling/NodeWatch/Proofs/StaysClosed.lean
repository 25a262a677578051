import Mathlib.Data.List.Infix
import NodeWatch.Proofs.EntryConservation
import NodeWatch.Proofs.DeliveryTraffic

/-! A closed client, from one action to the next. The dispatch worker carries out no delivery, so that
no user code is called any more. The background worker takes no removal and begins none, and once it
waits it does nothing but stop. -/

namespace NodeWatch

open Client (invocations invocations_append)

namespace Client

variable {c c₁ c' : Client}

/-- Both are closed, and in between no user code was called, and nothing was taken off the queue of
deliveries, except that the queue may have been closed. -/
structure StaysClosed (c c' : Client) : Prop where
  closed : c'.closed = true
  silent : invocations c'.journal = invocations c.journal
  shut : c.deliveries.isOpen = false → c'.deliveries.isOpen = false
  undelivered : c'.deliveries.isOpen = true → c.deliveries.items <+: c'.deliveries.items

namespace StaysClosed

theorem of_eq (hc : c'.closed = true) (hj : c'.journal = c.journal)
    (ho : c'.deliveries.isOpen = c.deliveries.isOpen)
    (hi : c'.deliveries.items = c.deliveries.items) : c.StaysClosed c' :=
  ⟨hc, by rw [hj], fun h => ho.trans h, fun _ => by rw [hi]⟩

theorem refl (h : c.closed = true) : c.StaysClosed c :=
  of_eq h rfl rfl rfl

theorem trans (h : c.StaysClosed c₁) (h' : c₁.StaysClosed c') : c.StaysClosed c' := by
  refine ⟨h'.closed, h'.silent.trans h.silent, fun ho => h'.shut (h.shut ho), fun ho => ?_⟩
  have hopen : c₁.deliveries.isOpen = true := by
    by_contra hn
    rw [h'.shut (by simpa using hn)] at ho
    cases ho
  exact (h.undelivered hopen).trans (h'.undelivered ho)

theorem idles {x : Bool} (hc : c.closed = true) (h : c.Idles c' x) : c.StaysClosed c' := by
  obtain ⟨os, hj, hcalls, _⟩ := h.journal
  refine ⟨h.closed.trans hc, ?_, fun ho => by rw [h.deliveries, ho], fun _ => ?_⟩
  · rw [hj, invocations_append, hcalls, List.append_nil]
  · rw [h.deliveries]

theorem send (hc : c.closed = true) (p : Party) (d : Delivery) : c.StaysClosed (c.send p d).2 := by
  have hsent := c.sent p d
  have hopen := (c.grows_send p d).isOpen
  generalize c.send p d = x at hsent hopen ⊢
  obtain ⟨done, c'⟩ := x
  have hquiet : ∀ os : List Occurrence, invocations os = [] →
      invocations (os ++ c.journal) = invocations c.journal := fun os hos => by
    rw [invocations_append, hos, List.append_nil]
  cases hsent with
  | dropped =>
    exact ⟨hc, hquiet [.dropped d, .remarked .deliveryDropped] rfl, id, fun _ => List.prefix_rfl⟩
  | queued q offer =>
    refine ⟨hc, hquiet [.queued d] rfl, fun ho => hopen.trans ho, fun _ => ?_⟩
    exact Queue.items_of_accepted offer ▸ List.prefix_append _ _
  | lined q offer =>
    refine ⟨hc, rfl, fun ho => hopen.trans ho, fun _ => ?_⟩
    exact Queue.items_of_mustWait offer ▸ List.prefix_rfl

end StaysClosed

end Client

open Client (StaysClosed)

namespace Worker

def removal? : Worker → Option BackgroundRemoval
  | received b | removing b _ _ => some b
  | idle | reporting .. | stopped => none

/-- Whether the worker runs, and is not at a point at which it waits. -/
def isAwake : Worker → Bool
  | removing _ _ awake | reporting _ _ awake => awake
  | idle | received _ | stopped => false

theorem resume_of_asleep {w : Worker} (h : w.isAwake = false) (c : Client) : w.resume c = none := by
  cases w with
  | removing b st awake =>
    obtain rfl : awake = false := h
    cases st <;> rfl
  | reporting f e awake =>
    obtain rfl : awake = false := h
    rfl
  | idle | received | stopped => rfl

theorem answer_of_asleep {w : Worker} (h : w.isAwake = false) (slot : Nat) (x : Answer)
    (c : Client) : w.answer slot x c = none := by
  cases w with
  | removing b st awake =>
    obtain rfl : awake = false := h
    rfl
  | idle | received | reporting | stopped => rfl

theorem sleep_of_asleep {w : Worker} (h : w.isAwake = false) : w.sleep = none := by
  cases w with
  | removing b st awake | reporting b st awake =>
    obtain rfl : awake = false := h
    rfl
  | idle | received | stopped => rfl

theorem exists_sleep {w : Worker} (h : w.isAwake = true) :
    ∃ w', w.sleep = some w' ∧ w'.isAwake = false ∧ w'.isStopped = false := by
  cases w with
  | removing b st awake =>
    obtain rfl : awake = true := h
    exact ⟨.removing b st false, rfl, rfl, rfl⟩
  | reporting f e awake =>
    obtain rfl : awake = true := h
    exact ⟨.reporting f e false, rfl, rfl, rfl⟩
  | idle | received | stopped => cases h

theorem turn_of_closed {w : Worker} {c : Client} (hc : c.closed = true) (ha : w.isAwake = false)
    (hs : w.isStopped = false) (orphaned : Bool) : w.turn orphaned c = some (stop c) := by
  cases w with
  | removing b st awake | reporting b st awake =>
    obtain rfl : awake = false := ha
    simp [turn, hc]
  | idle | received => simp [turn, hc]
  | stopped => cases hs

/-- The worker took no removal and began none, and if it was not running it has not moved since,
except to stop. -/
structure Winds (w w' : Worker) : Prop where
  untaken : ∀ b, w'.removal? = some b → w.removal? = some b
  unbegun : w'.task?.isSome = true → w.task?.isSome = true
  asleep : w.isAwake = false → w' = w ∨ w' = stopped

namespace Winds

theorem refl (w : Worker) : w.Winds w :=
  ⟨fun _ => id, id, fun _ => .inl rfl⟩

theorem of_eq {w w' : Worker} (h : w' = w) : w.Winds w' :=
  h ▸ refl w

theorem stop (w : Worker) : w.Winds stopped :=
  ⟨nofun, nofun, fun _ => .inr rfl⟩

theorem ended {w w' : Worker} (hw : w.isAwake = true) (hr : w'.removal? = none)
    (ht : w'.task? = none) : w.Winds w' :=
  ⟨fun b hb => by simp [hr] at hb, fun h => by simp [ht] at h, fun h => by simp [hw] at h⟩

theorem trans {w w₁ w' : Worker} (h : w.Winds w₁) (h' : w₁.Winds w') : w.Winds w' := by
  refine ⟨fun b hb => h.untaken b (h'.untaken b hb), fun ht => h.unbegun (h'.unbegun ht),
    fun hw => ?_⟩
  rcases h.asleep hw with rfl | rfl
  · exact h'.asleep hw
  · exact .inr ((h'.asleep rfl).elim id id)

theorem resume {w w' : Worker} {c c' : Client} (h : w.resume c = some (w', c')) : w.Winds w' := by
  simp only [Worker.resume] at h
  split at h
  · rename_i b result
    obtain rfl : (conclude b result c).1 = w' := congrArg Prod.fst (Option.some.inj h)
    refine .ended rfl ?_ ?_
    · cases hf : b.callback <;> cases result <;> simp [conclude, hf, removal?]
    · cases hf : b.callback <;> cases result <;> simp [conclude, hf, task?]
  · obtain ⟨⟨st, c₁⟩, _, he⟩ := Option.map_eq_some_iff.mp h
    obtain ⟨rfl, rfl⟩ := Prod.mk.inj he
    exact ⟨fun _ => id, id, fun ha => by cases ha⟩
  · split at h
    · cases h
    · split at h
      all_goals
        obtain ⟨rfl, rfl⟩ := Prod.mk.inj (Option.some.inj h)
        exact .ended rfl rfl rfl
  · cases h

theorem answer {w w' : Worker} {slot : Nat} {x : Answer} {c c' : Client}
    (h : w.answer slot x c = some (w', c')) : w.Winds w' := by
  simp only [Worker.answer] at h
  split at h
  · obtain ⟨⟨st, c₁⟩, _, he⟩ := Option.map_eq_some_iff.mp h
    obtain ⟨rfl, rfl⟩ := Prod.mk.inj he
    exact ⟨fun _ => id, id, fun ha => by cases ha⟩
  · cases h

theorem sleep {w w' : Worker} (h : w.sleep = some w') : w.Winds w' := by
  simp only [Worker.sleep] at h
  split at h
  · obtain rfl := Option.some.inj h
    exact ⟨fun _ => id, id, fun ha => by cases ha⟩
  · obtain rfl := Option.some.inj h
    exact ⟨fun _ => id, id, fun ha => by cases ha⟩
  · cases h

end Winds

end Worker

namespace Engine

variable {a : Action} {s t : Engine}

theorem worker_updateCall {id : Nat} {f : Operation → Client → Option (Operation × Client)}
    (h : updateCall id f s = some t) : t.worker = s.worker := by
  simp only [updateCall, Option.bind_eq_bind, Option.bind_eq_some_iff, Option.some.injEq] at h
  obtain ⟨_, _, ⟨o, c⟩, _, rfl⟩ := h
  rfl

theorem worker_updateListener {f : Session.Stage → Client → Option (Session.Stage × Client)}
    (h : updateListener f s = some t) : t.worker = s.worker := by
  obtain ⟨_, _, rfl⟩ := Option.map_eq_some_iff.mp h
  rfl

theorem winds_act (hc : s.client.closed = true) (h : act a s = some t) :
    s.worker.Winds t.worker := by
  cases a with
  | begin o =>
    simp only [act, begin] at h
    split at h
    · obtain rfl := Option.some.inj h
      exact .refl _
    · cases h
  | resume p =>
    cases p with
    | caller id => exact .of_eq (worker_updateCall h)
    | remover =>
      obtain ⟨⟨w, c⟩, hw, rfl⟩ := Option.map_eq_some_iff.mp h
      exact .resume hw
    | listener => exact .of_eq (worker_updateListener h)
  | answer p slot x =>
    cases p with
    | caller id => exact .of_eq (worker_updateCall h)
    | remover =>
      obtain ⟨⟨w, c⟩, hw, rfl⟩ := Option.map_eq_some_iff.mp h
      exact .answer hw
    | listener => exact .of_eq (worker_updateListener h)
  | timeOut p slot =>
    cases p with
    | caller id => exact .of_eq (worker_updateCall h)
    | remover => cases h
    | listener => exact .of_eq (worker_updateListener h)
  | retry p slot =>
    cases p with
    | caller id => exact .of_eq (worker_updateCall h)
    | remover => cases h
    | listener => exact .of_eq (worker_updateListener h)
  | dispatch conduct =>
    cases dispatch_shutdown hc h
    exact .refl _
  | turn =>
    cases turn_shutdown hc h
    exact .stop _
  | sleep =>
    obtain ⟨w, hw, rfl⟩ := Option.map_eq_some_iff.mp h
    exact .sleep hw
  | listen =>
    cases listen_shutdown hc h
    exact .refl _
  | feed e =>
    simp only [act, feedEvent] at h
    split at h
    · obtain rfl := Option.some.inj h
      exact .refl _
    · cases h
  | endFeed =>
    obtain rfl := Option.some.inj h
    exact .refl _
  | perform d =>
    simp only [act] at h
    split at h
    · obtain rfl := Option.some.inj h
      exact .refl _
    · cases h
  | release =>
    simp only [act] at h
    split at h
    · obtain rfl := Option.some.inj h
      exact .refl _
    · cases h
  | abandon id =>
    obtain ⟨o, _, rfl⟩ := Option.map_eq_some_iff.mp h
    exact .refl _
  | collect id =>
    obtain ⟨x, _, rfl⟩ := Option.map_eq_some_iff.mp h
    exact .refl _

theorem staysClosed_act (hs : s.Orderly) (hc : s.client.closed = true) (h : act a s = some t) :
    s.client.StaysClosed t.client := by
  rcases act_change_or_shutdown h with hch | ⟨_, hsd⟩
  · cases traffic_of_change hs hch with
    | idled connected idles => exact .idles hc idles
    | sent p d ds party due client => exact client ▸ .send hc p d
    | carried conduct d q action =>
      subst action
      cases dispatch_shutdown hc h
      exact ⟨hc, rfl, fun _ => rfl, fun ho => by cases ho⟩
    | silenced conduct action =>
      subst action
      cases dispatch_shutdown hc h
      exact ⟨hc, rfl, fun _ => rfl, fun ho => by cases ho⟩
    | withdrew p due closed journal deliveries =>
      refine .of_eq (closed.trans hc) journal ?_ ?_
      · rw [deliveries, Queue.isOpen_withdraw]
      · rw [deliveries, Queue.items_withdraw]
    | performed d action client =>
      rw [client]
      cases d with
      | close => exact .of_eq rfl rfl rfl rfl
      | addListener | removeListener => exact .of_eq hc rfl rfl rfl
  · cases hsd with
    | dispatching => exact ⟨hc, rfl, fun _ => rfl, fun ho => by cases ho⟩
    | worker =>
      exact .of_eq hc rfl (Queue.isOpen_withdraw _ _) (Queue.items_withdraw _ _)
    | listener => exact .refl hc

end Engine

end NodeWatch
