import Mathlib.Logic.Relation
import NodeWatch.Proofs.EntryAccounts
import NodeWatch.Proofs.OperationCourses

/-! The elementary changes that everything a client goes through is made of. Each of them registers
one entry, takes some entries out, or leaves the registry as it is, and notes at most one occurrence.
So what the journal says about the registry is right at every moment, also in the middle of a move. -/

namespace NodeWatch

namespace Client

inductive Touch (c c' : Client) : Prop
  | silent (registry : ∀ f, f ∈ c'.registry ↔ f ∈ c.registry) (journal : c'.journal = c.journal)
  | noted (o : Occurrence) (unarmed : o.armed? = none) (untaken : o.consumptions = [])
    (registry : ∀ f, f ∈ c'.registry ↔ f ∈ c.registry) (journal : c'.journal = o :: c.journal)
  | armed (e : Entry) (new : e ∉ c.registry)
    (registry : ∀ f, f ∈ c'.registry ↔ f = e ∨ f ∈ c.registry)
    (journal : c'.journal = .armed e :: c.journal)
  | taken (cause : Cause) (es : List Entry) (distinct : es.Nodup) (live : ∀ e ∈ es, e ∈ c.registry)
    (registry : ∀ f, f ∈ c'.registry ↔ f ∈ c.registry ∧ f ∉ es)
    (journal : c'.journal = .taken cause es :: c.journal)

def Touched : Client → Client → Prop :=
  Relation.ReflTransGen Touch

namespace Touched

variable {c c₁ c' : Client}

theorem refl (c : Client) : c.Touched c :=
  Relation.ReflTransGen.refl

theorem trans (h : c.Touched c₁) (h' : c₁.Touched c') : c.Touched c' :=
  Relation.ReflTransGen.trans h h'

theorem of_eq (hr : c'.registry = c.registry) (hj : c'.journal = c.journal) : c.Touched c' :=
  .single (.silent (fun f => by rw [hr]) hj)

theorem note (c : Client) {o : Occurrence} (ha : o.armed? = none) (hc : o.consumptions = []) :
    c.Touched (c.note o) :=
  .single (.noted o ha hc (fun _ => Iff.rfl) rfl)

theorem remark (c : Client) (r : Remark) : c.Touched (c.remark r) :=
  note c rfl rfl

theorem submit (c : Client) (r : Request) : c.Touched (c.submit r) :=
  note c rfl rfl

theorem settle (c : Client) (m : RemovalMode) (result : Except Fault (List Entry)) :
    c.Touched (c.settle m result) :=
  (of_eq rfl rfl : c.Touched (c.count _ 1)).trans (note _ rfl rfl)

theorem aside (h : c.Aside c') : c.Touched c' := by
  obtain ⟨os, hj, ho⟩ := h.journal
  have hgrown : c.Touched { c with journal := os ++ c.journal } := by
    clear hj
    induction os with
    | nil => exact refl c
    | cons o os ih =>
      have hplain := Occurrence.plain_of_isAside (ho o (.head _))
      exact (ih fun o' hm => ho o' (.tail _ hm)).tail
        (.noted o hplain.1 hplain.2.1 (fun _ => Iff.rfl) rfl)
  exact hgrown.trans (of_eq h.registry hj)

theorem arm (c : Client) (e : Entry) : c.Touched (c.arm e) := by
  simp only [Client.arm]
  cases hi : c.registry.insert e.path e.kind e.subscriber with
  | mk new r =>
    cases new with
    | false => exact refl c
    | true =>
      have hnew : (c.registry.insert e.path e.kind e.subscriber).1 = true := by rw [hi]
      refine .single (.armed e ((Registry.insert_fst _ _ _ _).mp hnew) (fun f => ?_) rfl)
      have hins : f ∈ (c.registry.insert e.path e.kind e.subscriber).2 ↔ _ := Registry.mem_insert
      rwa [hi] at hins

theorem takeOut (cause : Cause) (path : String) (p : Kind → Subscriber → Bool)
    (hr : c'.registry = (c.registry.takeOut path p).2)
    (hj : c'.journal = .taken cause (c.registry.takeOut path p).1 :: c.journal) : c.Touched c' := by
  refine .single (.taken cause _ (Registry.nodup_takeOut_fst c.registry path p)
    (fun e he => (Registry.mem_takeOut_fst.mp he).1) (fun f => ?_) hj)
  rw [hr, Registry.mem_takeOut_snd, Registry.mem_takeOut_fst]
  tauto

theorem unregister (c : Client) (cause : Cause) (path : String) (kind : Selector)
    (target : Target) : c.Touched (c.unregister cause path kind target).2 :=
  takeOut cause path _ rfl rfl

theorem fire (c : Client) (path : String) (e : WatchedEvent) : c.Touched (c.fire path e).2 := by
  simp only [Client.fire]
  cases hf : c.registry.takeTriggered path e.type with
  | mk es r =>
    cases es with
    | nil =>
      refine .single (.silent (fun f => ?_) rfl)
      have hnone : (c.registry.takeTriggered path e.type).1 = [] := by rw [hf]
      have hleft : f ∈ (c.registry.takeTriggered path e.type).2 ↔ _ := Registry.mem_takeOut_snd
      rw [hf] at hleft
      refine hleft.trans ⟨And.left, fun hm => ⟨hm, fun hsel => ?_⟩⟩
      have hmem : f ∈ (c.registry.takeTriggered path e.type).1 :=
        Registry.mem_takeOut_fst.mpr ⟨hm, hsel⟩
      rw [hnone] at hmem
      cases hmem
    | cons x xs =>
      refine takeOut (.fired e) path (fun k _ => e.type.triggered.contains k) ?_ ?_
      · exact (congrArg Prod.snd hf).symm
      · exact congrArg (fun y => Occurrence.taken (.fired e) y.1 :: c.journal) hf.symm

theorem drain (c : Client) : c.Touched c.drain.2 := by
  refine .single (.taken .expired _ c.registry.nodup_snapshot
    (fun e he => Registry.mem_snapshot.mp he) (fun f => ?_) rfl)
  change f ∈ Registry.empty ↔ f ∈ c.registry ∧ f ∉ c.registry.snapshot none
  rw [Registry.mem_snapshot, Registry.mem_iff, Registry.holders_empty]
  simp

theorem send (c : Client) (p : Party) (d : Delivery) : c.Touched (c.send p d).2 := by
  simp only [Client.send]
  split
  · exact (remark c _).trans (note _ rfl rfl)
  · exact .single (.noted (.queued d) rfl rfl (fun _ => Iff.rfl) rfl)
  · exact of_eq rfl rfl

theorem of_thins {r : RemovalRequest} (h : Removal.Thins r c c') : c.Touched c' := by
  induction h with
  | none => exact refl c
  | taken _ kind ih => exact ih.trans (unregister _ .removed r.path kind r.target)
  | remarked _ m ih => exact ih.trans (remark _ m)

end Touched

end Client

open Client (Touched)

namespace Removal

variable {r : RemovalRequest} {c c' : Client}

theorem touched_start (r : RemovalRequest) (c : Client) : c.Touched (start r c).2 := by
  have h := started r c
  generalize start r c = x at h ⊢
  cases h with
  | invalid | asking => exact .refl c
  | unmatched => exact (Touched.unregister c _ _ _ _).trans (.settle _ _ _)
  | taken => exact .unregister c _ _ _ _
  | idle => exact .settle c _ _

theorem touched_resume {party : Party} {st st' : Stage}
    (h : resume r party st c = some (st', c')) : c.Touched c' := by
  cases resumed h with
  | asked => exact .submit c _
  | advanced p answers => exact .of_thins (thins_advance p answers c)
  | told | passed => exact .refl c
  | telling => exact .send c _ _
  | finished => exact .settle c _ _
  | rearming => exact (Touched.remark c _).trans (.submit _ _)

end Removal

namespace Session

variable {c c' : Client}

theorem touched_start (e : SessionEvent) (c : Client) : c.Touched (start e c).2 := by
  have hn : c.Touched (c.note (.handling e)) := .note c rfl rfl
  cases e with
  | disconnected =>
    have hd : Touched (c.note (.handling .disconnected))
        { c.note (.handling .disconnected) with connected := false } := .of_eq rfl rfl
    exact (hn.trans hd).trans (.remark _ _)
  | reconnected => exact hn.trans (.of_eq rfl rfl)
  | expired => exact hn.trans (.remark _ _)

theorem touched_recover (c : Client) : c.Touched (recover c).2 := by
  have hn : c.Touched ((c.count (.recoveries c.settings.recovery) 1).note
      (.recovering c.settings.recovery)) := by
    have hc : c.Touched (c.count (.recoveries c.settings.recovery) 1) := .of_eq rfl rfl
    exact hc.trans (.note _ rfl rfl)
  unfold recover
  dsimp only
  split
  · exact hn.trans (.drain _)
  · exact hn

theorem touched_resume {p : Party} {st st' : Stage} (h : resume p st c = some (st', c')) :
    c.Touched c' := by
  cases resumed h with
  | expiring | telling | reporting => exact .send c _ _
  | expired => exact touched_recover c
  | started => exact .submit c _
  | gathered | kept => exact .refl c
  | dropped s f rs => exact (Touched.remark c _).trans (.unregister _ .expired _ _ _)
  | restored => exact .of_eq rfl rfl

end Session

namespace Operation

variable {c c' : Client}

theorem touched_start (o : Order) (c : Client) : c.Touched (start o c).2 := by
  have h := started o c
  generalize start o c = x at h ⊢
  cases h with
  | unread | unremoved | unenrolled | offering | ignored | announced | unhandled => exact .refl c
  | asked => exact .submit c _
  | removing r => exact Removal.touched_start r c
  | fired e path => exact .fire c path e
  | handling e => exact Session.touched_start e c

theorem touched_move {o o' : Operation} {m : Move} {p : Party}
    (h : o.move m p c = some (o', c')) : c.Touched c' := by
  cases moves h with
  | failed | refused | notified => exact .refl c
  | armed a => exact .arm c a.entry
  | removing r st st' c' resume => exact Removal.touched_resume resume
  | settling r slot x st st' c' answer => exact .of_thins (Removal.thins_answer answer)
  | enrolled | lining => exact .of_eq rfl rfl
  | notifying => exact .send c _ _
  | handling st st' c' resume => exact Session.touched_resume resume
  | answered slot x st st' c' answer => exact .aside (.of_remarked (Session.remarked_answer answer))
  | timedOut slot st st' c' timeOut => exact .aside (.of_remarked (Session.remarked_timeOut timeOut))
  | retried slot st st' c' retry =>
    obtain ⟨q, rfl⟩ := Session.submitted_retry retry
    exact .submit c q

end Operation

theorem Worker.remarked_conclude (b : BackgroundRemoval) (result : Except Fault (List Entry))
    (c : Client) : c.Remarked (conclude b result c).2 := by
  unfold conclude
  split
  · exact .none
  · exact .none
  · exact .more .none _

namespace Engine

theorem client_put (s : Engine) (p : Party) (o : Operation) (c : Client) :
    (s.put p o c).client = c := by
  cases p <;> rfl

theorem touched_change {a : Action} {s t : Engine} (h : Change s a t) :
    s.client.Touched t.client := by
  cases h with
  | begun o => exact Operation.touched_start o s.client
  | moved p m o o' c action task move =>
    rw [client_put]
    exact Operation.touched_move move
  | concluded b r => exact .aside (.of_remarked (Worker.remarked_conclude b r s.client))
  | reported f e sent c worker send =>
    have hc : c = (s.client.send .remover (.completion f e)).2 := by rw [send]
    change s.client.Touched c
    rw [hc]
    exact .send _ _ _
  | dispatched conduct d q =>
    have hq : s.client.Touched { s.client with deliveries := q } := .of_eq rfl rfl
    exact hq.trans (.aside (.deliver conduct _ d))
  | silenced =>
    have hr : s.client.Touched (s.client.remark .deliveryQueueClosed) := .remark _ _
    exact hr.trans (.of_eq rfl rfl)
  | undertook b => exact Removal.touched_start b.request s.client
  | heard e => exact Session.touched_start e s.client
  | lagged => exact .remark _ _
  | performed d => exact .aside (.apply s.client d)
  | took | retired | abandoned => exact .of_eq rfl rfl
  | stirred | deafened | fed | feedEnded | released | collected => exact .refl _

theorem touched_act {a : Action} {s t : Engine} (h : act a s = some t) :
    s.client.Touched t.client := by
  rcases act_change_or_shutdown h with h | ⟨_, h⟩
  · exact touched_change h
  · cases h with
    | dispatching | worker => exact .of_eq rfl rfl
    | listener => exact .refl _

end Engine

end NodeWatch
