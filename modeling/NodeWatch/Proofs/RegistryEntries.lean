import Mathlib.Data.Multiset.UnionInter
import Mathlib.Data.Multiset.Bind
import NodeWatch.Registry

/-! The registry as a set of entries. Every change of the registry is described by the entries it
lists afterwards, and the listing shows each of them once. -/

namespace NodeWatch

namespace Registry

instance : Membership Entry Registry :=
  ⟨fun r e => e.subscriber ∈ r.holders e.path e.kind⟩

theorem mem_iff {r : Registry} {e : Entry} : e ∈ r ↔ e.subscriber ∈ r.holders e.path e.kind :=
  Iff.rfl

end Registry

namespace Holders

theorem of_put (h : Holders) (k k' : Kind) (l : List Subscriber) :
    (h.put k l).of k' = if k = k' then l else h.of k' := by
  cases k <;> cases k' <;> simp [put, of]

theorem of_keep (h : Holders) (p : Kind → Subscriber → Bool) (k : Kind) :
    (h.keep p).of k = (h.of k).filter (p k) := by
  cases k <;> rfl

theorem mem_entries {h : Holders} {path : String} {p : Kind → Subscriber → Bool} {e : Entry} :
    e ∈ h.entries path p ↔
      e.path = path ∧ e.subscriber ∈ h.of e.kind ∧ p e.kind e.subscriber = true := by
  obtain ⟨path', k, s⟩ := e
  simp only [entries, List.mem_append, List.mem_map, List.mem_filter, Entry.mk.injEq]
  constructor
  · rintro (⟨t, ⟨ht, hp⟩, rfl, rfl, rfl⟩ | ⟨t, ⟨ht, hp⟩, rfl, rfl, rfl⟩)
    · exact ⟨rfl, ht, hp⟩
    · exact ⟨rfl, ht, hp⟩
  · rintro ⟨rfl, hs, hp⟩
    cases k
    · exact .inl ⟨s, ⟨hs, hp⟩, rfl, rfl, rfl⟩
    · exact .inr ⟨s, ⟨hs, hp⟩, rfl, rfl, rfl⟩

theorem nodup_entries {h : Holders} (hd : h.Distinct) (path : String)
    (p : Kind → Subscriber → Bool) : (h.entries path p).Nodup := by
  have hinj : ∀ k, Function.Injective (Entry.mk path k) := fun k s t hst => (Entry.mk.inj hst).2.2
  refine List.Nodup.append ((hd.1.filter _).map (hinj _)) ((hd.2.filter _).map (hinj _)) ?_
  intro e hl hr
  obtain ⟨s, _, rfl⟩ := List.mem_map.mp hl
  obtain ⟨t, _, ht⟩ := List.mem_map.mp hr
  cases ht

end Holders

namespace Registry

theorem holders_empty (path : String) (k : Kind) : empty.holders path k = [] := by
  cases k <;> simp [holders, atPath, empty, Holders.of, Holders.none]

theorem holders_replace (r : Registry) (path : String) (h : Holders) (hd : h.Distinct)
    (p : String) (k : Kind) :
    (r.replace path h hd).holders p k = if path = p then h.of k else r.holders p k := by
  simp only [holders]
  rw [atPath_replace]
  split <;> rfl

theorem holders_takeOut (r : Registry) (path : String) (p : Kind → Subscriber → Bool)
    (path' : String) (k : Kind) :
    (r.takeOut path p).2.holders path' k =
      if path = path' then (r.holders path k).filter (fun s => !p k s) else r.holders path' k := by
  simp only [takeOut]
  rw [holders_replace, Holders.of_keep]
  rfl

theorem insert_fst (r : Registry) (path : String) (k : Kind) (s : Subscriber) :
    (r.insert path k s).1 = true ↔ (⟨path, k, s⟩ : Entry) ∉ r := by
  simp only [insert]
  by_cases h : s ∈ r.holders path k
  · simp [h, mem_iff]
  · simp [h, mem_iff]

theorem mem_insert {r : Registry} {path : String} {k : Kind} {s : Subscriber} {e : Entry} :
    e ∈ (r.insert path k s).2 ↔ e = ⟨path, k, s⟩ ∨ e ∈ r := by
  obtain ⟨path', k', s'⟩ := e
  simp only [insert]
  by_cases h : s ∈ r.holders path k
  · rw [dif_pos h]
    refine ⟨Or.inr, fun hs => hs.elim (fun he => ?_) id⟩
    cases he
    exact h
  · rw [dif_neg h, mem_iff, mem_iff, holders_replace, Holders.of_put]
    by_cases hp : path = path'
    · subst hp
      by_cases hk : k = k'
      · subst hk
        simp [or_comm]
      · have hk' : k' ≠ k := fun he => hk he.symm
        simp [hk, hk', holders]
    · have hp' : path' ≠ path := fun he => hp he.symm
      simp [hp, hp']

theorem mem_takeOut_fst {r : Registry} {path : String} {p : Kind → Subscriber → Bool}
    {e : Entry} :
    e ∈ (r.takeOut path p).1 ↔ e ∈ r ∧ e.path = path ∧ p e.kind e.subscriber = true := by
  simp only [takeOut]
  rw [Holders.mem_entries, mem_iff]
  constructor
  · rintro ⟨rfl, hs, hp⟩
    exact ⟨hs, rfl, hp⟩
  · rintro ⟨hs, rfl, hp⟩
    exact ⟨rfl, hs, hp⟩

theorem mem_takeOut_snd {r : Registry} {path : String} {p : Kind → Subscriber → Bool}
    {e : Entry} :
    e ∈ (r.takeOut path p).2 ↔ e ∈ r ∧ ¬(e.path = path ∧ p e.kind e.subscriber = true) := by
  rw [mem_iff, mem_iff, holders_takeOut]
  by_cases hp : path = e.path
  · subst hp
    simp
  · have hp' : e.path ≠ path := fun he => hp he.symm
    simp [hp, hp']

theorem nodup_takeOut_fst (r : Registry) (path : String) (p : Kind → Subscriber → Bool) :
    (r.takeOut path p).1.Nodup :=
  Holders.nodup_entries (r.distinct_atPath path) path p

theorem mem_snapshot {r : Registry} {e : Entry} : e ∈ r.snapshot none ↔ e ∈ r := by
  simp only [snapshot, List.mem_flatMap, Holders.mem_entries, and_true]
  constructor
  · rintro ⟨⟨path, h⟩, hm, rfl, hs⟩
    rw [Std.ExtTreeMap.mem_toList_iff_getElem?_eq_some] at hm
    rw [mem_iff, holders, atPath, hm]
    exact hs
  · intro he
    rw [mem_iff, holders, atPath] at he
    cases hp : r.paths[e.path]? with
    | none =>
      rw [hp] at he
      cases hk : e.kind <;> simp [hk, Holders.of, Holders.none] at he
    | some h =>
      rw [hp] at he
      exact ⟨(e.path, h), Std.ExtTreeMap.mem_toList_iff_getElem?_eq_some.mpr hp, rfl, he⟩

theorem nodup_snapshot (r : Registry) : (r.snapshot none).Nodup := by
  rw [snapshot, List.nodup_flatMap]
  constructor
  · rintro ⟨path, h⟩ hm
    rw [Std.ExtTreeMap.mem_toList_iff_getElem?_eq_some] at hm
    exact Holders.nodup_entries (r.distinct path h hm) path _
  · refine r.paths.distinct_keys_toList.imp ?_
    rintro ⟨p, h⟩ ⟨q, g⟩ hne e hl hr
    have hp : e.path = p := (Holders.mem_entries.mp hl).1
    have hq : e.path = q := (Holders.mem_entries.mp hr).1
    exact hne (Std.LawfulEqCmp.compare_eq_iff_eq.mpr (hp.symm.trans hq))

/-- The entries, each once. -/
def live (r : Registry) : Multiset Entry :=
  r.snapshot none

theorem mem_live {r : Registry} {e : Entry} : e ∈ r.live ↔ e ∈ r := by
  rw [live, Multiset.mem_coe, mem_snapshot]

theorem nodup_live (r : Registry) : r.live.Nodup :=
  Multiset.coe_nodup.mpr r.nodup_snapshot

theorem live_empty : empty.live = 0 := by
  rw [Multiset.eq_zero_iff_forall_notMem]
  intro e he
  rw [mem_live, mem_iff, holders_empty] at he
  cases he

theorem live_insert {r : Registry} {path : String} {k : Kind} {s : Subscriber}
    (h : (r.insert path k s).1 = true) :
    (r.insert path k s).2.live = ⟨path, k, s⟩ ::ₘ r.live := by
  rw [insert_fst] at h
  rw [Multiset.Nodup.ext (nodup_live _)
    (Multiset.nodup_cons.mpr ⟨fun he => h (mem_live.mp he), r.nodup_live⟩)]
  intro e
  rw [mem_live, mem_insert, Multiset.mem_cons, mem_live]

theorem live_takeOut (r : Registry) (path : String) (p : Kind → Subscriber → Bool) :
    r.live = ↑(r.takeOut path p).1 + (r.takeOut path p).2.live := by
  have hdis : Disjoint (↑(r.takeOut path p).1 : Multiset Entry) (r.takeOut path p).2.live := by
    rw [Multiset.disjoint_left]
    intro e hl hr
    exact (mem_takeOut_snd.mp (mem_live.mp hr)).2 (mem_takeOut_fst.mp (Multiset.mem_coe.mp hl)).2
  rw [Multiset.Nodup.ext r.nodup_live
    (Multiset.nodup_add.mpr
      ⟨Multiset.coe_nodup.mpr (r.nodup_takeOut_fst path p), nodup_live _, hdis⟩)]
  intro e
  rw [Multiset.mem_add, Multiset.mem_coe, mem_live, mem_live, mem_takeOut_fst, mem_takeOut_snd]
  tauto

end Registry

end NodeWatch
