import NodeWatch.Proofs.OperationCourses
import NodeWatch.Proofs.EngineTasks

/-! Removals on their way to the background worker. Only an enrolment puts one on the queue, and
only the worker takes one off; no other move touches the queue. -/

namespace NodeWatch

namespace Client

theorem removals_send (c : Client) (p : Party) (d : Delivery) :
    (c.send p d).2.removals = c.removals := by
  simp only [send]
  split <;> rfl

theorem removals_apply (c : Client) (d : Deed) : (c.apply d).removals = c.removals := by
  cases d <;> rfl

theorem removals_deliver (conduct : Client → Call → Conduct) (c : Client) (d : Delivery) :
    (c.deliver conduct d).removals = c.removals := by
  refine List.foldlRecOn (motive := fun c' : Client => c'.removals = c.removals) _ _ rfl ?_
  intro c' hc x _
  have hdeeds : ((conduct (c'.note (.called x)) x).deeds.foldl Client.apply
      (c'.note (.called x))).removals = c.removals :=
    List.foldlRecOn (motive := fun c' : Client => c'.removals = c.removals) _ _ hc
      fun c' hc d _ => (removals_apply c' d).trans hc
  unfold Client.call
  dsimp only
  split
  · exact hdeeds
  · exact hdeeds

end Client

namespace Operation

variable {c c' : Client}

theorem removals_move {o o' : Operation} {m : Move} {p : Party}
    (hm : o.move m p c = some (o', c')) (ho : ∀ b st, o ≠ .enrolment b st) :
    c'.removals = c.removals := by
  cases moves hm with
  | failed | notified => rfl
  | armed a x => exact (Client.Undisturbed.arm c a.entry).removals
  | removing r st st' c' resume =>
    cases Removal.resumed resume with
    | advanced pl answers empty =>
      exact (Client.Undisturbed.of_thins (Removal.thins_advance pl answers c)).removals
    | telling e es st => exact Client.removals_send _ _ _
    | asked | told | finished | passed | rearming => rfl
  | settling r slot x st st' c' answer =>
    exact (Client.Undisturbed.of_thins (Removal.thins_answer answer)).removals
  | refused b => exact absurd rfl (ho b _)
  | enrolled b q => exact absurd rfl (ho b _)
  | lining b q => exact absurd rfl (ho b _)
  | notifying d ds => exact Client.removals_send c p d
  | handling st st' c' resume =>
    cases Session.resumed resume with
    | expiring | telling | reporting => exact Client.removals_send _ _ _
    | expired => exact (Session.undisturbed_recover c).removals
    | started | gathered | kept | dropped | restored => rfl
  | answered slot x st st' c' answer =>
    exact (Client.Undisturbed.of_remarked (Session.remarked_answer answer)).removals
  | timedOut slot st st' c' timeOut =>
    exact (Client.Undisturbed.of_remarked (Session.remarked_timeOut timeOut)).removals
  | retried slot st st' c' retry =>
    obtain ⟨q, rfl⟩ := Session.submitted_retry retry
    rfl

end Operation

namespace Worker

/-- The removal that was taken from the queue and not begun. -/
def received? : Worker → Option BackgroundRemoval
  | received b => some b
  | _ => none

end Worker

namespace Engine

/-- The removals handed to the worker and not begun, the next one first. -/
def handed (s : Engine) : List BackgroundRemoval :=
  s.worker.received?.toList ++ s.client.removals.items

theorem handed_congr {s t : Engine} (hw : t.worker.received? = s.worker.received?)
    (hq : t.client.removals.items = s.client.removals.items) : t.handed = s.handed := by
  rw [handed, handed, hw, hq]

theorem received?_put (s : Engine) (p : Party) (o : Operation) (c : Client) :
    (s.put p o c).worker.received? = s.worker.received? := by
  cases p with
  | caller id => rfl
  | remover =>
    simp only [put]
    cases hs : s.worker <;> cases o <;> rfl
  | listener => rfl

end Engine

end NodeWatch
