import NodeWatch.Proofs.AwaitedRemovals

/-! Removals that are handed to the background worker, while the client does nothing else. Whatever
waits in the queue and is in the worker's hands, it will come to what the same removals come to one
after another, each of them reported to its callback when it has come to its end. -/

namespace NodeWatch

namespace Queue

variable {α : Type}

/-- An open queue in which those who wait are in line or were given a place, and wait only while there
is no room. -/
structure Tidy (q : Queue α) (waits : Party → Prop) : Prop where
  isOpen : q.isOpen = true
  capacity : 0 < q.capacity
  nodup : (q.line ++ q.admitted).Nodup
  waiting : ∀ p ∈ q.line ++ q.admitted, waits p
  full : q.line ≠ [] → q.capacity ≤ q.items.length + q.admitted.length

variable {q q' : Queue α} {p : Party} {x : α} {waits waits' : Party → Prop}

theorem Tidy.mono (h : q.Tidy waits) (hw : ∀ p, waits p → waits' p) : q.Tidy waits' :=
  ⟨h.isOpen, h.capacity, h.nodup, fun p hp => hw p (h.waiting p hp), h.full⟩

theorem Tidy.not_refused (h : q.Tidy waits) : q.offer p x ≠ .refused := by
  rcases offer_of_open h.isOpen p x with ⟨_, hq, _⟩ | ⟨_, hq, _⟩
  · simp [hq]
  · simp [hq]

/-- The party whose offer is accepted waits no more. -/
theorem Tidy.accepted (h : q.Tidy waits) (ho : q.offer p x = .accepted q')
    (hw : ∀ p', p' ≠ p → waits p' → waits' p') : q'.Tidy waits' := by
  simp only [offer, h.isOpen, Bool.not_true, Bool.false_eq_true, if_false] at ho
  split at ho
  · rename_i hp
    obtain rfl := Offer.accepted.inj ho
    have hnodup := List.nodup_append.mp h.nodup
    refine ⟨rfl, h.capacity, ?_, fun p' hp' => ?_, fun hline => ?_⟩
    · exact h.nodup.sublist ((List.Sublist.refl _).append List.erase_sublist)
    · rcases List.mem_append.mp hp' with hp' | hp'
      · exact hw p' (hnodup.2.2 p' hp' p hp) (h.waiting p' (List.mem_append_left _ hp'))
      · obtain ⟨hne, hmem⟩ := hnodup.2.1.mem_erase_iff.mp hp'
        exact hw p' hne (h.waiting p' (List.mem_append_right _ hmem))
    · have hfull := h.full hline
      have hpos := List.length_pos_of_mem hp
      simp only [List.length_append, List.length_singleton, List.length_erase_of_mem hp]
      omega
  · rename_i hadmitted
    split at ho
    · cases ho
    · rename_i hline
      split at ho
      · rename_i hroom
        obtain rfl := Offer.accepted.inj ho
        refine ⟨rfl, h.capacity, h.nodup, fun p' hp' => ?_, fun hne => ?_⟩
        · refine hw p' ?_ (h.waiting p' hp')
          rintro rfl
          exact (List.mem_append.mp hp').elim hline hadmitted
        · have hfull := h.full hne
          simp only [room] at hroom
          omega
      · cases ho

theorem Tidy.mustWait (h : q.Tidy waits) (ho : q.offer p x = .mustWait q') (hp : waits p) :
    q'.Tidy waits := by
  simp only [offer, h.isOpen, Bool.not_true, Bool.false_eq_true, if_false] at ho
  split at ho
  · cases ho
  · rename_i hadmitted
    split at ho
    · obtain rfl := Offer.mustWait.inj ho
      exact h
    · rename_i hline
      split at ho
      · cases ho
      · rename_i hroom
        obtain rfl := Offer.mustWait.inj ho
        refine ⟨rfl, h.capacity, ?_, fun p' hp' => ?_, fun _ => ?_⟩
        · rw [List.append_assoc]
          refine List.nodup_middle.mpr (List.nodup_cons.mpr ⟨fun hm => ?_, h.nodup⟩)
          exact (List.mem_append.mp hm).elim hline hadmitted
        · rw [List.append_assoc] at hp'
          rcases List.mem_append.mp hp' with hp' | hp'
          · exact h.waiting p' (List.mem_append_left _ hp')
          · rcases List.mem_cons.mp hp' with rfl | hp'
            · exact hp
            · exact h.waiting p' (List.mem_append_right _ hp')
        · simp only [room] at hroom
          exact Nat.sub_eq_zero_iff_le.mp (Nat.eq_zero_of_not_pos hroom)

/-- While the queue is empty one of those who wait can put its item. -/
theorem Tidy.exists_welcome (h : q.Tidy waits) (hi : q.items = []) (hp : waits p) :
    ∃ p', waits p' ∧ q.stalls p' = false ∧ ∀ x, ∃ q', q.offer p' x = .accepted q' := by
  have hopen := h.isOpen
  cases ha : q.admitted with
  | cons p' ps =>
    refine ⟨p', h.waiting p' (by simp [ha]), by simp [stalls, ha], fun x => ?_⟩
    simp [offer, hopen, ha]
  | nil =>
    have hcapacity := h.capacity
    have hline : q.line = [] := by
      by_contra hne
      have hfull := h.full hne
      simp only [hi, ha, List.length_nil] at hfull
      omega
    refine ⟨p, hp, by simp [stalls, hline], fun x => ?_⟩
    simp [offer, hopen, ha, hline, room, hi, hcapacity]

theorem Tidy.take (h : q.Tidy waits) (ht : q.take? = some (x, q')) : q'.Tidy waits := by
  obtain ⟨capacity, items, line, admitted, isOpen⟩ := q
  cases items with
  | nil => cases ht
  | cons y items =>
    obtain ⟨rfl, rfl⟩ := Prod.mk.inj (Option.some.inj ht)
    cases line with
    | nil => exact ⟨h.isOpen, h.capacity, h.nodup, h.waiting, fun hne => absurd rfl hne⟩
    | cons p ps =>
      have hmove : (ps ++ (admitted ++ [p])).Perm (p :: ps ++ admitted) := by
        rw [← List.append_assoc]
        exact List.perm_append_comm
      refine ⟨h.isOpen, h.capacity, hmove.nodup_iff.mpr h.nodup,
        fun p' hp' => h.waiting p' (hmove.mem_iff.mp hp'), fun _ => ?_⟩
      have hfull := h.full (List.cons_ne_nil p ps)
      simp only [grant, List.length_append, List.length_cons] at hfull ⊢
      omega

end Queue

open Client (trace queuings callings InStep Alike Mirrors)
open Removal (Stage finale perform Sound)

/-- Whether a removal took anything out. -/
def Removal.confirmed : Except Fault (List Entry) → Bool
  | .ok (_ :: _) => true
  | _ => false

/-- What the callback of a background removal, if it has one, is told about the result. -/
def BackgroundRemoval.report (b : BackgroundRemoval) (result : Except Fault (List Entry)) :
    List Delivery :=
  b.callback.toList.map fun f =>
    .completion f (.removal b.request.path b.request.kind (ResultCode.ofResult result)
      (Removal.confirmed result))

/-- The client when a background removal that has come to its end was reported. -/
def reported (b : BackgroundRemoval) (x : Except Fault (List Entry) × Client) : Client :=
  ((b.report x.1).map Occurrence.queued).foldl Client.note x.2

/-- The client after a background removal. -/
def serve (reply : Transport) (c : Client) (b : BackgroundRemoval) : Client :=
  reported b (perform reply b.request c)

/-- The client when the worker has done with what it has in hand. -/
def prospect (reply : Transport) : Worker → Client → Client
  | .idle, c | .stopped, c => c
  | .received b, c => serve reply c b
  | .removing b st _, c => reported b (finale reply b.request st c)
  | .reporting f e _, c => c.note (.queued (.completion f e))

section Congruence

variable {reply : Transport} {b : BackgroundRemoval} {c d : Client} {xs ys : List Occurrence}

theorem Worker.completion_eq (r : RemovalRequest) (result : Except Fault (List Entry)) :
    completion r result =
      .removal r.path r.kind (ResultCode.ofResult result) (Removal.confirmed result) := by
  rcases result with f | es
  · rfl
  · cases es <;> rfl

theorem inStep_reported {x y : Except Fault (List Entry) × Client} (h : Alike xs ys x y) :
    InStep xs ys (reported b x) (reported b y) := by
  rw [reported, reported, h.1]
  exact h.2.foldl (fun _ _ o h => h.note o) _

theorem inStep_serve (reply : Transport) (h : InStep xs ys c d) (b : BackgroundRemoval) :
    InStep xs ys (serve reply c b) (serve reply d b) :=
  inStep_reported (Removal.alike_perform reply b.request h)

theorem inStep_served (reply : Transport) (h : InStep xs ys c d) (bs : List BackgroundRemoval) :
    InStep xs ys (bs.foldl (serve reply) c) (bs.foldl (serve reply) d) :=
  h.foldl (fun _ _ b h => inStep_serve reply h b) bs

theorem inStep_prospect (reply : Transport) (h : InStep xs ys c d) (w : Worker) :
    InStep xs ys (prospect reply w c) (prospect reply w d) := by
  cases w with
  | idle | stopped => exact h
  | received b => exact inStep_serve reply h b
  | removing b st awake => exact inStep_reported (Removal.alike_finale reply b.request st h)
  | reporting f e awake => exact h.note _

end Congruence

/-- The removal that an operation still offers to the worker. -/
def Operation.enrolling? : Operation → Option BackgroundRemoval
  | enrolment b .offering => some b
  | _ => none

namespace Engine

/-- The removals whose enrolment is under way. -/
def offering (s : Engine) : List BackgroundRemoval :=
  s.calls.filterMap fun x => x.2.enrolling?

/-- The removal that a call has just handed over. -/
def handedOver (s : Engine) (id : Nat) : List BackgroundRemoval :=
  match s.call? id with
  | some (.enrolment b (.done (.ok ()))) => [b]
  | _ => []

/-- The caller's enrolment is under way. -/
def Enrols (s : Engine) (p : Party) : Prop :=
  ∃ id b, p = .caller id ∧ s.call? id = some (.enrolment b .offering)

end Engine

/-- A client that is given background removals and nothing else to do: the removals as the calls were
begun, those that the worker's queue took, in the order in which it took them, and the deliveries that
were carried out. -/
structure Backlog where
  engine : Engine
  ordered : List BackgroundRemoval
  submitted : List BackgroundRemoval
  carried : List Delivery

namespace Backlog

def opening (s : Engine) : Backlog :=
  ⟨s, [], [], []⟩

inductive Step (reply : Transport) (w : Backlog) : Backlog → Prop
  | ordered (b : BackgroundRemoval) (t : Engine) (valid : Path.validate b.request.path = .ok ())
    (act : Engine.act (.begin (.enrol b)) w.engine = some t) :
    Step reply w { w with engine := t, ordered := w.ordered ++ [b] }
  | enrolling (id : Nat) (t : Engine) (act : Engine.act (.resume (.caller id)) w.engine = some t) :
    Step reply w { w with engine := t, submitted := w.submitted ++ t.handedOver id }
  | collected (id : Nat) (t : Engine) (act : Engine.act (.collect id) w.engine = some t) :
    Step reply w { w with engine := t }
  | released (t : Engine) (act : Engine.act .release w.engine = some t) :
    Step reply w { w with engine := t }
  | worked (a : Engine.Action) (t : Engine) (own : a = .turn ∨ a = .sleep ∨ a = .resume .remover)
    (act : Engine.act a w.engine = some t) : Step reply w { w with engine := t }
  | answered (slot : Nat) (t : Engine)
    (act : Engine.act (.answer .remover slot (reply (w.engine.upTo .remover slot))) w.engine =
      some t) : Step reply w { w with engine := t }
  | dispatched (conduct : Client → Call → Conduct) (t : Engine)
    (opened : ∀ c x, .close ∉ (conduct c x).deeds)
    (act : Engine.act (.dispatch conduct) w.engine = some t) :
    Step reply w { w with
      engine := t
      carried := w.carried ++ w.engine.client.deliveries.items.take 1 }

/-- The worker is there, and what it needs to get on. -/
structure Alive (reply : Transport) (s : Engine) : Prop where
  working : s.worker.isStopped = false
  dispatching : s.dispatching = true
  calm : s.client.Calm .remover
  sound : ∀ b st awake, s.worker = .removing b st awake → Sound reply b.request st s.client
  tidy : s.client.removals.Tidy s.Enrols

/-- Nobody has the client any more, and the worker is gone. -/
structure Over (s : Engine) : Prop where
  worker : s.worker = .stopped
  calls : s.calls = []
  held : s.held = false
  items : s.client.removals.items = []

/-- How a client with background removals stands. -/
structure Standing (reply : Transport) (s : Engine) (w : Backlog) : Prop where
  orderly : w.engine.Orderly
  opened : w.engine.client.closed = false
  alone : w.engine.listener.task? = none
  calls : ∀ x ∈ w.engine.calls, ∃ b,
    x.2 = .enrolment b .offering ∨ x.2 = .enrolment b (.done (.ok ()))
  ordered : (w.submitted ++ w.engine.offering).Perm w.ordered
  mirrors : Mirrors (w.engine.client.removals.items.foldl (serve reply)
    (prospect reply w.engine.worker w.engine.client)) (w.submitted.foldl (serve reply) s.client)
  delivered : ∃ os, w.engine.client.journal = os ++ s.client.journal ∧
    w.carried ++ w.engine.client.deliveries.items = s.client.deliveries.items ++ queuings os ∧
    callings os = w.carried.flatMap (Delivery.calls [])
  dispatching : w.engine.dispatching = true ∨ w.engine.client.deliveries.items = []
  stage : Alive reply w.engine ∨ Over w.engine

end Backlog

end NodeWatch
