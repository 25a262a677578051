import Mathlib.Data.Set.Insert
import NodeWatch.Proofs.RegistryEntries
import NodeWatch.Session

/-! The paths and kinds under which entries are registered. The server knows a watch by these
alone, and a recovery arms each of them once. -/

namespace NodeWatch

open Session (Spot)

def Entry.spot (e : Entry) : Spot :=
  ⟨e.path, e.kind⟩

namespace Registry

/-- The paths and kinds that have an entry. -/
def spots (r : Registry) : Set Spot :=
  { κ | ∃ e ∈ r, e.spot = κ }

theorem mem_spots {r : Registry} {κ : Spot} : κ ∈ r.spots ↔ ∃ s, s ∈ r.holders κ.path κ.kind := by
  obtain ⟨path, k⟩ := κ
  constructor
  · rintro ⟨e, he, hs⟩
    obtain ⟨rfl, rfl⟩ := Spot.mk.inj hs
    exact ⟨e.subscriber, he⟩
  · rintro ⟨s, hs⟩
    exact ⟨⟨path, k, s⟩, hs, rfl⟩

theorem spots_empty : empty.spots = ∅ := by
  ext κ
  rw [mem_spots]
  simp [holders_empty]

theorem spots_insert (r : Registry) (path : String) (k : Kind) (s : Subscriber) :
    (r.insert path k s).2.spots = Insert.insert ⟨path, k⟩ r.spots := by
  ext κ
  constructor
  · rintro ⟨e, he, rfl⟩
    rcases mem_insert.mp he with rfl | he
    · exact .inl rfl
    · exact .inr ⟨e, he, rfl⟩
  · rintro (rfl | ⟨e, he, rfl⟩)
    · exact ⟨⟨path, k, s⟩, mem_insert.mpr (.inl rfl), rfl⟩
    · exact ⟨e, mem_insert.mpr (.inr he), rfl⟩

theorem spots_takeOut_subset (r : Registry) (path : String) (p : Kind → Subscriber → Bool) :
    (r.takeOut path p).2.spots ⊆ r.spots := by
  rintro κ ⟨e, he, rfl⟩
  exact ⟨e, (mem_takeOut_snd.mp he).1, rfl⟩

theorem isEmpty_registeredKinds {r : Registry} {path : String} {k : Kind} :
    (r.registeredKinds path (.only k) .all).isEmpty = true ↔ (⟨path, k⟩ : Spot) ∉ r.spots := by
  rw [mem_spots, registeredKinds, List.isEmpty_iff, List.filter_eq_nil_iff]
  simp [Selector.kinds, Target.selects]

end Registry

namespace Session

/-- The order of a snapshot: by path, then by kind. -/
def Spot.Before (s t : Spot) : Prop :=
  compare s.path t.path = .lt ∨ s.path = t.path ∧ s.kind.rank < t.kind.rank

theorem Spot.Before.asymm {s t : Spot} (h : s.Before t) : ¬t.Before s := by
  rintro (h' | ⟨hp', hr'⟩) <;> rcases h with h | ⟨hp, hr⟩
  · have hgt := Std.OrientedCmp.gt_of_lt h
    rw [h'] at hgt
    cases hgt
  · exact absurd (hp ▸ h') (ne_of_eq_of_ne Std.ReflCmp.compare_self (by decide))
  · exact absurd (hp' ▸ h) (ne_of_eq_of_ne Std.ReflCmp.compare_self (by decide))
  · omega

theorem Spot.Before.ne {s t : Spot} (h : s.Before t) : s ≠ t := by
  rintro rfl
  exact h.asymm h

theorem mem_spots {es : List Entry} {κ : Spot} : κ ∈ spots es ↔ ∃ e ∈ es, e.spot = κ := by
  induction es with
  | nil => simp [spots]
  | cons e es ih =>
    have hcons : κ ∈ spots (e :: es) ↔ κ = e.spot ∨ κ ∈ spots es := by
      simp only [spots]
      cases hs : spots es with
      | nil => simp [Entry.spot]
      | cons s ss =>
        by_cases he : s = ⟨e.path, e.kind⟩
        · simp [he, Entry.spot]
        · simp [he, Entry.spot]
    rw [hcons, ih]
    constructor
    · rintro (rfl | ⟨f, hf, rfl⟩)
      · exact ⟨e, .head _, rfl⟩
      · exact ⟨f, .tail _ hf, rfl⟩
    · rintro ⟨f, hf, rfl⟩
      rcases List.mem_cons.mp hf with rfl | hf
      · exact .inl rfl
      · exact .inr ⟨f, hf, rfl⟩

/-- Neighbours of one spot make one task, so that in an ordered list no spot comes twice. -/
theorem pairwise_spots {es : List Entry}
    (h : es.Pairwise fun e f => e.spot = f.spot ∨ e.spot.Before f.spot) :
    (spots es).Pairwise Spot.Before := by
  induction es with
  | nil => exact .nil
  | cons e es ih =>
    obtain ⟨he, hes⟩ := List.pairwise_cons.mp h
    have ht := ih hes
    have hfrom : ∀ t ∈ spots es, e.spot = t ∨ e.spot.Before t := by
      intro t hm
      obtain ⟨f, hf, rfl⟩ := mem_spots.mp hm
      exact he f hf
    simp only [spots]
    cases hs : spots es with
    | nil => exact List.pairwise_singleton _ _
    | cons s ss =>
      rw [hs] at ht hfrom
      dsimp only
      by_cases hse : s = ⟨e.path, e.kind⟩
      · rw [if_pos hse]
        exact ht
      · rw [if_neg hse]
        refine List.pairwise_cons.mpr ⟨fun t hm => ?_, ht⟩
        have hes' : e.spot.Before s :=
          (hfrom s (.head _)).resolve_left fun heq => hse heq.symm
        rcases List.mem_cons.mp hm with rfl | hm'
        · exact hes'
        · refine (hfrom t hm).resolve_left ?_
          rintro rfl
          exact hes'.asymm ((List.pairwise_cons.mp ht).1 _ hm')

end Session

namespace Registry

theorem pairwise_entries (h : Holders) (path : String) (p : Kind → Subscriber → Bool) :
    (h.entries path p).Pairwise fun e f => e.spot = f.spot ∨ e.spot.Before f.spot := by
  rw [Holders.entries, List.pairwise_append]
  refine ⟨?_, ?_, ?_⟩
  · exact List.pairwise_map.mpr (List.pairwise_of_forall fun _ _ => .inl rfl)
  · exact List.pairwise_map.mpr (List.pairwise_of_forall fun _ _ => .inl rfl)
  · intro e he f hf
    obtain ⟨s, _, rfl⟩ := List.mem_map.mp he
    obtain ⟨t, _, rfl⟩ := List.mem_map.mp hf
    exact .inr (.inr ⟨rfl, Nat.zero_lt_one⟩)

theorem pairwise_snapshot (r : Registry) :
    (r.snapshot none).Pairwise fun e f => e.spot = f.spot ∨ e.spot.Before f.spot := by
  rw [snapshot, List.pairwise_flatMap]
  refine ⟨fun x _ => pairwise_entries x.2 x.1 _, ?_⟩
  refine r.paths.ordered_keys_toList.imp ?_
  intro x y hlt e he f hf
  have hp : e.path = x.1 := (Holders.mem_entries.mp he).1
  have hq : f.path = y.1 := (Holders.mem_entries.mp hf).1
  refine .inr (.inl ?_)
  change compare e.path f.path = .lt
  rw [hp, hq]
  exact hlt

theorem mem_spots_snapshot {r : Registry} {κ : Spot} :
    κ ∈ Session.spots (r.snapshot none) ↔ κ ∈ r.spots := by
  rw [Session.mem_spots]
  constructor
  · rintro ⟨e, he, rfl⟩
    exact ⟨e, mem_snapshot.mp he, rfl⟩
  · rintro ⟨e, he, rfl⟩
    exact ⟨e, mem_snapshot.mpr he, rfl⟩

theorem nodup_spots_snapshot (r : Registry) : (Session.spots (r.snapshot none)).Nodup :=
  (Session.pairwise_spots r.pairwise_snapshot).imp Spot.Before.ne

end Registry

namespace Session

/-- An ordered list of entries is what it has at each of its spots, one after another. -/
theorem flatMap_filter_spots {es : List Entry}
    (h : es.Pairwise fun e f => e.spot = f.spot ∨ e.spot.Before f.spot) :
    (spots es).flatMap (fun κ => es.filter (·.spot = κ)) = es := by
  induction es with
  | nil => rfl
  | cons e es ih =>
    have hes := ih (List.pairwise_cons.mp h).2
    have hsorted := pairwise_spots h
    have hskip : ∀ κs : List Spot, (∀ κ ∈ κs, e.spot.Before κ) →
        κs.flatMap (fun κ => (e :: es).filter (·.spot = κ)) =
          κs.flatMap fun κ => es.filter (·.spot = κ) := by
      intro κs hκs
      refine List.flatMap_congr fun κ hκ => ?_
      rw [List.filter_cons_of_neg (by simpa using (hκs κ hκ).ne)]
    simp only [spots] at hsorted ⊢
    cases hs : spots es with
    | nil =>
      have hnil : es = [] := by
        rw [← hes, hs]
        rfl
      simp [hnil, Entry.spot]
    | cons s ss =>
      rw [hs] at hes hsorted
      dsimp only at hsorted ⊢
      by_cases hse : s = ⟨e.path, e.kind⟩
      · rw [if_pos hse] at hsorted ⊢
        have hafter := (List.pairwise_cons.mp hsorted).1
        rw [hse] at hafter hes ⊢
        rw [List.flatMap_cons] at hes
        rw [List.flatMap_cons, hskip ss hafter, List.filter_cons_of_pos (by simp [Entry.spot]),
          List.cons_append, hes]
      · rw [if_neg hse] at hsorted ⊢
        have hafter := (List.pairwise_cons.mp hsorted).1
        have hnone : es.filter (·.spot = e.spot) = [] := by
          refine List.filter_eq_nil_iff.mpr fun f hf hfe => ?_
          have hmem : f.spot ∈ s :: ss := hs ▸ mem_spots.mpr ⟨f, hf, rfl⟩
          exact (hafter _ hmem).ne (of_decide_eq_true hfe).symm
        rw [List.flatMap_cons, hskip (s :: ss) hafter, hes,
          List.filter_cons_of_pos (by simp [Entry.spot])]
        exact congrArg (e :: · ++ es) hnone

end Session

namespace Registry

/-- The entries of one path and kind, in the order in which they were registered. -/
def entriesAt (r : Registry) (κ : Spot) : List Entry :=
  (r.holders κ.path κ.kind).map (Entry.mk κ.path κ.kind)

theorem mem_entriesAt {r : Registry} {κ : Spot} {e : Entry} :
    e ∈ r.entriesAt κ ↔ e ∈ r ∧ e.spot = κ := by
  obtain ⟨path, k⟩ := κ
  rw [entriesAt, List.mem_map]
  constructor
  · rintro ⟨s, hs, rfl⟩
    exact ⟨hs, rfl⟩
  · rintro ⟨he, hs⟩
    obtain ⟨rfl, rfl⟩ := Spot.mk.inj hs
    exact ⟨e.subscriber, he, rfl⟩

theorem filter_entries (h : Holders) (path : String) (k : Kind) :
    (h.entries path fun _ _ => true).filter (·.spot = ⟨path, k⟩) =
      (h.of k).map (Entry.mk path k) := by
  cases k <;> simp [Holders.entries, Holders.of, List.filter_map, Entry.spot, Function.comp_def]

theorem filter_snapshot (r : Registry) (κ : Spot) :
    (r.snapshot none).filter (·.spot = κ) = r.entriesAt κ := by
  obtain ⟨path, k⟩ := κ
  have hother : ∀ x : String × Holders, x.1 ≠ path →
      (x.2.entries x.1 fun _ _ => true).filter (·.spot = ⟨path, k⟩) = [] := by
    intro x hx
    refine List.filter_eq_nil_iff.mpr fun e he hs => hx ?_
    obtain ⟨hp, _⟩ := Spot.mk.inj (of_decide_eq_true hs)
    exact (Holders.mem_entries.mp he).1.symm.trans hp
  rw [snapshot, List.filter_flatMap]
  cases hpath : r.paths[path]? with
  | none =>
    have hnone : r.entriesAt ⟨path, k⟩ = [] := by
      cases k <;> simp [entriesAt, holders, atPath, hpath, Holders.of, Holders.none]
    rw [hnone]
    refine List.flatMap_eq_nil_iff.mpr fun x hx => hother x ?_
    rintro rfl
    rw [Std.ExtTreeMap.mem_toList_iff_getElem?_eq_some, hpath] at hx
    cases hx
  | some h =>
    obtain ⟨xs, ys, hsplit⟩ := List.append_of_mem
      (Std.ExtTreeMap.mem_toList_iff_getElem?_eq_some.mpr hpath)
    have hkeys := r.paths.distinct_keys_toList
    rw [hsplit, List.pairwise_append, List.pairwise_cons] at hkeys
    obtain ⟨_, ⟨hys, _⟩, hxs⟩ := hkeys
    have hbefore : xs.flatMap (fun x => (x.2.entries x.1 fun _ _ => true).filter
        (·.spot = ⟨path, k⟩)) = [] := by
      refine List.flatMap_eq_nil_iff.mpr fun x hx => hother x fun hp => ?_
      exact hxs x hx _ (.head _) (Std.LawfulEqCmp.compare_eq_iff_eq.mpr hp)
    have hafter : ys.flatMap (fun x => (x.2.entries x.1 fun _ _ => true).filter
        (·.spot = ⟨path, k⟩)) = [] := by
      refine List.flatMap_eq_nil_iff.mpr fun x hx => hother x fun hp => ?_
      exact hys x hx (Std.LawfulEqCmp.compare_eq_iff_eq.mpr hp.symm)
    rw [hsplit, List.flatMap_append, List.flatMap_cons, hbefore, hafter, List.nil_append,
      List.append_nil, filter_entries, entriesAt, holders, atPath, hpath]
    rfl

/-- A snapshot lists one path and kind after another. -/
theorem snapshot_eq_flatMap (r : Registry) :
    r.snapshot none = (Session.spots (r.snapshot none)).flatMap r.entriesAt := by
  rw [← funext r.filter_snapshot]
  exact (Session.flatMap_filter_spots r.pairwise_snapshot).symm

theorem unregister_all (r : Registry) (κ : Spot) :
    (r.unregister κ.path (.only κ.kind) .all).1 = r.entriesAt κ := by
  obtain ⟨path, k⟩ := κ
  cases k <;> simp [unregister, takeOut, Holders.entries, entriesAt, holders, Holders.of,
    Selector.selects, Selector.kinds, Target.selects]

theorem holders_unregister_all (r : Registry) (κ : Spot) (path : String) (k : Kind) :
    (r.unregister κ.path (.only κ.kind) .all).2.holders path k =
      if ⟨path, k⟩ = κ then [] else r.holders path k := by
  obtain ⟨path', k'⟩ := κ
  rw [unregister, holders_takeOut]
  by_cases hp : path' = path
  · subst hp
    by_cases hk : k = k'
    · subst hk
      simp [Selector.selects, Selector.kinds, Target.selects]
    · simp [hk, Selector.selects, Selector.kinds]
  · have hne : (⟨path, k⟩ : Spot) ≠ ⟨path', k'⟩ := fun h => hp (Spot.mk.inj h).1.symm
    rw [if_neg hp, if_neg hne]

end Registry

end NodeWatch
