import NodeWatch.Proofs.ArmingAdmission
import NodeWatch.Proofs.RemovalFailures

/-! What each kind of operation enters in the books: what it adds to the counters, and whether
entries leave the registry with it. Apart from the answer to a read nothing ever brings one in. -/

namespace NodeWatch

namespace Client

/-- Neither the counters nor the registry were touched. -/
structure Unposted (c c' : Client) : Prop where
  ledger : c'.ledger = c.ledger
  registry : c'.registry = c.registry

/-- Entries may have left the registry, and nothing was counted. -/
structure Sheds (c c' : Client) : Prop where
  ledger : c'.ledger = c.ledger
  live : c'.registry.live ≤ c.registry.live

/-- Entries may have left the registry, and the counters went up by so much. -/
structure Credits (c : Client) (credit : Meter → Nat) (c' : Client) : Prop where
  counted : ∀ m, c'.ledger.count m = c.ledger.count m + credit m
  live : c'.registry.live ≤ c.registry.live

variable {c c₁ c' : Client}

namespace Unposted

theorem refl (c : Client) : c.Unposted c :=
  ⟨rfl, rfl⟩

theorem trans (h : c.Unposted c₁) (h' : c₁.Unposted c') : c.Unposted c' :=
  ⟨h'.ledger.trans h.ledger, h'.registry.trans h.registry⟩

theorem sheds (h : c.Unposted c') : c.Sheds c' :=
  ⟨h.ledger, h.registry ▸ le_rfl⟩

theorem note (c : Client) (o : Occurrence) : c.Unposted (c.note o) :=
  ⟨rfl, rfl⟩

theorem remark (c : Client) (r : Remark) : c.Unposted (c.remark r) :=
  note c _

theorem of_remarked (h : c.Remarked c') : c.Unposted c' := by
  induction h with
  | none => exact refl c
  | more _ r ih => exact ih.trans (remark _ r)

theorem apply (c : Client) (d : Deed) : c.Unposted (c.apply d) := by
  cases d <;> exact ⟨rfl, rfl⟩

theorem foldl {α : Type} {f : Client → α → Client} (hf : ∀ (c : Client) x, c.Unposted (f c x))
    (xs : List α) (c : Client) : c.Unposted (xs.foldl f c) := by
  induction xs generalizing c with
  | nil => exact refl c
  | cons x xs ih => exact (hf c x).trans (ih (f c x))

theorem call (conduct : Client → Call → Conduct) (c : Client) (x : Call) :
    c.Unposted (c.call conduct x) := by
  have h := (note c (.called x)).trans
    (foldl apply (conduct (c.note (.called x)) x).deeds (c.note (.called x)))
  unfold Client.call
  dsimp only
  split
  · exact h.trans (remark _ _)
  · exact h

theorem deliver (conduct : Client → Call → Conduct) (c : Client) (d : Delivery) :
    c.Unposted (c.deliver conduct d) :=
  foldl (call conduct) _ c

theorem send (c : Client) (p : Party) (d : Delivery) : c.Unposted (c.send p d).2 := by
  simp only [Client.send]
  split <;> exact ⟨rfl, rfl⟩

end Unposted

namespace Sheds

theorem refl (c : Client) : c.Sheds c :=
  (Unposted.refl c).sheds

theorem trans (h : c.Sheds c₁) (h' : c₁.Sheds c') : c.Sheds c' :=
  ⟨h'.ledger.trans h.ledger, h'.live.trans h.live⟩

theorem credits (h : c.Sheds c') : c.Credits 0 c' :=
  ⟨fun m => by rw [h.ledger]; rfl, h.live⟩

theorem unregister (c : Client) (cause : Cause) (path : String) (kind : Selector)
    (target : Target) : c.Sheds (c.unregister cause path kind target).2 := by
  have hlive : c.registry.live = ↑(c.unregister cause path kind target).1 +
      (c.unregister cause path kind target).2.registry.live :=
    Registry.live_takeOut _ _ _
  exact ⟨rfl, hlive ▸ Multiset.le_add_left _ _⟩

theorem drain (c : Client) : c.Sheds c.drain.2 := by
  refine ⟨rfl, ?_⟩
  change Registry.empty.live ≤ c.registry.live
  rw [Registry.live_empty]
  exact Multiset.zero_le _

theorem of_thins {r : RemovalRequest} (h : Removal.Thins r c c') : c.Sheds c' := by
  induction h with
  | none => exact refl c
  | taken _ kind ih => exact ih.trans (unregister _ .removed r.path kind r.target)
  | remarked _ m ih => exact ih.trans (Unposted.remark _ m).sheds

end Sheds

theorem Sheds.settle (h : c.Sheds c') (m : RemovalMode) (result : Except Fault (List Entry)) :
    c.Credits (fun x => if x = .removals m (outcomeOf result) then 1 else 0) (c'.settle m result) := by
  refine ⟨fun x => ?_, h.live⟩
  rw [← h.ledger]
  refine (Ledger.count_add _ _ _ _).trans ?_
  split <;> rfl

theorem credits_fire (c : Client) (path : String) (e : WatchedEvent) :
    c.Credits (fun m => if m = .triggered e.type then (c.fire path e).1.length else 0)
        (c.fire path e).2 ∧
      c.registry.live = ↑(c.fire path e).1 + (c.fire path e).2.registry.live := by
  have hlive := Registry.live_takeOut c.registry path fun k _ => e.type.triggered.contains k
  simp only [fire]
  cases hf : c.registry.takeTriggered path e.type with
  | mk es r =>
    replace hlive : c.registry.live = ↑es + r.live := by
      rwa [show c.registry.takeOut path _ = (es, r) from hf] at hlive
    have hle : r.live ≤ c.registry.live := hlive ▸ Multiset.le_add_left _ _
    cases es with
    | nil => exact ⟨⟨fun m => by simp, hle⟩, hlive⟩
    | cons x xs =>
      refine ⟨⟨fun m => (Ledger.count_add _ _ _ _).trans ?_, hle⟩, hlive⟩
      split <;> rfl

theorem books_arm (c : Client) (e : Entry) :
    (c.arm e).registry.live = (if e ∈ c.registry then 0 else {e}) + c.registry.live := by
  by_cases h : e ∈ c.registry
  · rw [arm_of_mem h, if_pos h, zero_add]
  · rw [arm_of_not_mem h, if_neg h, Multiset.singleton_add]
    exact Registry.live_insert ((Registry.insert_fst _ _ _ _).mpr h)

end Client

open Client (Sheds Credits Unposted)

namespace Removal

variable {r : RemovalRequest} {p : Plan} {c c' : Client} {st st' : Stage}

/-- What is counted for a removal when it comes to a stage: its end, if its path was valid. -/
def credit (r : RemovalRequest) : Stage → Meter → Nat
  | .done result, m =>
    if Path.isValid r.path = true ∧ m = .removals r.mode (Client.outcomeOf result) then 1 else 0
  | _, _ => 0

theorem credits_advance (p : Plan) (answers : List (Option Answer)) (c : Client) :
    c.Credits (credit r (advance r p answers c).1) (advance r p answers c).2 := by
  have hnone : credit r (advance r p answers c).1 = 0 := by
    rcases advance_cases r p answers c with ⟨_, ha⟩ | ⟨as, _, _, ha⟩
    · rw [ha]
      rfl
    · rw [ha]
      rfl
  rw [hnone]
  exact (Sheds.of_thins (thins_advance p answers c)).credits

theorem credits_finish (hv : Path.isValid r.path = true) (h : c.Sheds c')
    (result : Except Fault (List Entry)) :
    c.Credits (credit r (finish r result c').1) (finish r result c').2 := by
  have hcredit : credit r (finish r result c').1 =
      fun x => if x = .removals r.mode (Client.outcomeOf result) then 1 else 0 := by
    funext m
    simp [finish, credit, hv]
  rw [hcredit]
  exact h.settle r.mode result

theorem credits_start (r : RemovalRequest) (c : Client) :
    c.Credits (credit r (start r c).1) (start r c).2 := by
  have htake := Sheds.unregister c .removed r.path r.kind r.target
  have h := started r c
  generalize start r c = x at h ⊢
  cases h with
  | invalid f invalid =>
    have hinvalid : ¬Path.isValid r.path = true := fun hvalid => by
      simp [Path.validate, Option.isNone_iff_eq_none.mp hvalid] at invalid
    have hcredit : credit r (.done (.error f)) = 0 := by
      funext m
      simp [credit, hinvalid]
    rw [hcredit]
    exact (Sheds.refl c).credits
  | unmatched valid => exact credits_finish (Path.isValid_of_validate valid) htake _
  | taken => exact htake.credits
  | idle valid => exact credits_finish (Path.isValid_of_validate valid) (.refl c) _
  | asking => exact (Sheds.refl c).credits

theorem credits_resume {party : Party} (hv : Path.isValid r.path = true)
    (h : resume r party st c = some (st', c')) : c.Credits (credit r st') c' := by
  cases resumed h with
  | asked | told | passed | rearming => exact Sheds.credits (Unposted.sheds ⟨rfl, rfl⟩)
  | advanced p answers => exact credits_advance p answers c
  | telling e es o => exact (Unposted.send c _ _).sheds.credits
  | finished o result => exact credits_finish hv (.refl c) result

theorem credits_answer {slot : Nat} {x : Answer} (h : answer r slot x st c = some (st', c')) :
    c.Credits (credit r st') c' := by
  have hsheds := Sheds.of_thins (thins_answer h)
  cases replied h with
  | advanced p answers => exact credits_advance p _ c
  | rearmed => exact hsheds.credits

end Removal

namespace Session

variable {c c' : Client} {st st' : Stage}

/-- What is counted when the handling of an event goes on from a stage: the beginning of a
recovery. -/
def credit (c : Client) : Stage → Meter → Nat
  | .expired, m => if m = .recoveries c.settings.recovery then 1 else 0
  | _, _ => 0

theorem unposted_start (e : SessionEvent) (c : Client) : c.Unposted (start e c).2 := by
  cases e <;> exact ⟨rfl, rfl⟩

theorem credits_recover (c : Client) : c.Credits (credit c .expired) (recover c).2 := by
  have hcounted : ∀ m, (c.ledger.add (.recoveries c.settings.recovery) 1).count m =
      c.ledger.count m + credit c .expired m := fun m => by
    rw [Ledger.count_add]
    simp only [credit]
    split <;> rfl
  cases hp : c.settings.recovery with
  | dropAll =>
    rw [recover_dropAll hp]
    rw [hp] at hcounted
    exact ⟨hcounted, (Sheds.drain _).live⟩
  | resubmitAll =>
    rw [recover_resubmitAll hp]
    rw [hp] at hcounted
    exact ⟨hcounted, le_rfl⟩

theorem credits_resume {p : Party} (h : resume p st c = some (st', c')) :
    c.Credits (credit c st) c' := by
  cases resumed h with
  | expiring | telling | reporting => exact (Unposted.send c _ _).sheds.credits
  | expired => exact credits_recover c
  | started | gathered | kept | restored => exact Sheds.credits (Unposted.sheds ⟨rfl, rfl⟩)
  | dropped s f rs =>
    have hremarked := Unposted.remark c (.rearmAbandoned s.path s.kind f)
    exact (hremarked.sheds.trans (.unregister _ .expired s.path (.only s.kind) .all)).credits

/-- The tasks that arm watches again have no part in the books. -/
theorem credits_update {slot : Nat} {f : Task → Client → Option (Backoff.Stage × Client)}
    (h : update slot f st c = some (st', c')) (hc : c.Unposted c') : c.Credits (credit c st) c' := by
  obtain ⟨_, _, _, rfl, _⟩ := update_eq_some h
  exact hc.sheds.credits

end Session

end NodeWatch
