import Mathlib.Data.List.Dedup
import NodeWatch.Proofs.WatchedSpots

/-! The registry as one list of entries in the order in which they were registered. Whatever is
asked of the registry, the answer is read off that list, and nothing shows how the entries are
kept by path and kind. -/

namespace NodeWatch

open Session (Spot)

namespace Registry

inductive Command where
  | register (path : String) (kind : Selector) (s : Subscriber)
  | unregister (path : String) (kind : Selector) (target : Target)
  | takeTriggered (path : String) (type : EventType)
  | drain
  | contains (path : String) (kind : Selector) (s : Subscriber)
  | registeredKinds (path : String) (kind : Selector) (target : Target)
  | subscriberKinds (path : String) (kind : Selector) (s : Subscriber)
  | snapshot (path : Option String)
  | watchCount (path : String)
  | pathCount

inductive Reply where
  | registered (new : Except Fault Bool)
  | entries (es : List Entry)
  | holds (b : Bool)
  | kinds (ks : List Kind)
  | shares (ks : List (Kind × Bool))
  | count (n : Nat)

def perform (r : Registry) : Command → Reply × Registry
  | .register path kind s =>
    match r.register path kind s with
    | .ok x => (.registered (.ok x.1), x.2)
    | .error f => (.registered (.error f), r)
  | .unregister path kind target =>
    (.entries (r.unregister path kind target).1, (r.unregister path kind target).2)
  | .takeTriggered path type =>
    (.entries (r.takeTriggered path type).1, (r.takeTriggered path type).2)
  | .drain => (.entries r.drain.1, r.drain.2)
  | .contains path kind s => (.holds (r.contains path kind s), r)
  | .registeredKinds path kind target => (.kinds (r.registeredKinds path kind target), r)
  | .subscriberKinds path kind s => (.shares (r.subscriberKinds path kind s), r)
  | .snapshot path => (.entries (r.snapshot path), r)
  | .watchCount path => (.count (r.watchCount path), r)
  | .pathCount => (.count r.pathCount, r)

def run (r : Registry) : List Command → List Reply × Registry
  | [] => ([], r)
  | c :: cs => ((r.perform c).1 :: ((r.perform c).2.run cs).1, ((r.perform c).2.run cs).2)

end Registry

def Entry.order (e f : Entry) : Ordering :=
  (compare e.path f.path).then (compare e.kind.rank f.kind.rank)

/-- Entries in the order in which they were registered. -/
abbrev Roll :=
  List Entry

namespace Roll

/-- The entries by path and kind. The sort is stable: those of one path and kind stay in the
order in which they were registered. -/
def listed (l : Roll) : List Entry :=
  l.mergeSort fun e f => (e.order f).isLE

/-- Deletes the entries at `path` that satisfy `p`, and lists them. -/
def strike (l : Roll) (path : String) (p : Kind → Subscriber → Bool) : List Entry × Roll :=
  let struck (e : Entry) := e.path == path && p e.kind e.subscriber
  (listed (l.filter struck), l.filter fun e => !struck e)

def perform (l : Roll) : Registry.Command → Registry.Reply × Roll
  | .register path (.only k) s =>
    if ⟨path, k, s⟩ ∈ l then (.registered (.ok false), l)
    else (.registered (.ok true), l ++ [⟨path, k, s⟩])
  | .register path .any _ =>
    (.registered (.error (.invalidArgument s!"cannot register a watch of kind any on {path}")), l)
  | .unregister path kind target =>
    let struck := l.strike path fun k s => kind.selects k && target.selects s
    (.entries struck.1, struck.2)
  | .takeTriggered path type =>
    let struck := l.strike path fun k _ => type.triggered.contains k
    (.entries struck.1, struck.2)
  | .drain => (.entries l.listed, [])
  | .contains path kind s =>
    (.holds (l.any fun e => e.path == path && kind.selects e.kind && e.subscriber == s), l)
  | .registeredKinds path kind target =>
    (.kinds (kind.kinds.filter fun k =>
      l.any fun e => e.spot == ⟨path, k⟩ && target.selects e.subscriber), l)
  | .subscriberKinds path kind s =>
    (.shares ((kind.kinds.filter fun k => ⟨path, k, s⟩ ∈ l).map fun k =>
      (k, l.all fun e => e.spot == ⟨path, k⟩ → e.subscriber == s)), l)
  | .snapshot path => (.entries (listed (l.filter fun e => path.all (e.path == ·))), l)
  | .watchCount path => (.count (l.countP (·.path == path)), l)
  | .pathCount => (.count (l.map (·.path)).dedup.length, l)

def run (l : Roll) : List Registry.Command → List Registry.Reply × Roll
  | [] => ([], l)
  | c :: cs => ((l.perform c).1 :: ((l.perform c).2.run cs).1, ((l.perform c).2.run cs).2)

end Roll

/-! ### Listings -/

namespace Entry

theorem isLE_order {e f : Entry} :
    (e.order f).isLE = true ↔ e.spot = f.spot ∨ e.spot.Before f.spot := by
  rw [order, Ordering.isLE_then_iff_or, Std.LawfulEqCmp.compare_eq_iff_eq, Nat.isLE_compare]
  constructor
  · rintro (hp | ⟨hp, hk⟩)
    · exact .inr (.inl hp)
    · rcases Nat.lt_or_eq_of_le hk with hk | hk
      · exact .inr (.inr ⟨hp, hk⟩)
      · refine .inl (Spot.mk.injEq .. ▸ ⟨hp, ?_⟩)
        cases he : e.kind <;> cases hf : f.kind <;> simp_all [Kind.rank]
  · rintro (hs | hp | ⟨hp, hk⟩)
    · obtain ⟨hp, hk⟩ := Spot.mk.inj hs
      exact .inr ⟨hp, hk ▸ Nat.le_refl _⟩
    · exact .inl hp
    · exact .inr ⟨hp, Nat.le_of_lt hk⟩

instance : Std.TransCmp order :=
  inferInstanceAs (Std.TransCmp (compareLex (compareOn Entry.path) (compareOn (·.kind.rank))))

theorem isLE_order_total (e f : Entry) : ((e.order f).isLE || (f.order e).isLE) = true := by
  have hswap : f.order e = (e.order f).swap := Std.OrientedCmp.eq_swap
  rw [hswap]
  cases e.order f <;> rfl

end Entry

namespace Session

theorem eq_of_filter_spot {es fs : List Entry}
    (he : es.Pairwise fun e f => e.spot = f.spot ∨ e.spot.Before f.spot)
    (hf : fs.Pairwise fun e f => e.spot = f.spot ∨ e.spot.Before f.spot)
    (h : ∀ κ : Spot, es.filter (·.spot = κ) = fs.filter (·.spot = κ)) : es = fs := by
  have hmem : ∀ κ, κ ∈ spots es ↔ κ ∈ spots fs := by
    intro κ
    have hhas : ∀ gs : List Entry, κ ∈ spots gs ↔ gs.filter (·.spot = κ) ≠ [] := by
      intro gs
      rw [mem_spots, Ne, List.filter_eq_nil_iff]
      simp
    rw [hhas, hhas, h κ]
  have hperm : (spots es).Perm (spots fs) :=
    (List.perm_ext_iff_of_nodup ((pairwise_spots he).imp Spot.Before.ne)
      ((pairwise_spots hf).imp Spot.Before.ne)).mpr hmem
  have hspots : spots es = spots fs :=
    List.Perm.eq_of_pairwise (fun _ _ _ _ hab hba => absurd hba hab.asymm) (pairwise_spots he)
      (pairwise_spots hf) hperm
  rw [← flatMap_filter_spots he, ← flatMap_filter_spots hf, hspots]
  exact List.flatMap_congr fun κ _ => h κ

end Session

namespace Roll

theorem pairwise_listed (l : Roll) :
    l.listed.Pairwise fun e f => e.spot = f.spot ∨ e.spot.Before f.spot :=
  (List.pairwise_mergeSort (fun _ _ _ => Std.TransCmp.isLE_trans) Entry.isLE_order_total l).imp
    Entry.isLE_order.mp

/-- Sorting does not move the entries of one spot past each other. -/
theorem filter_listed (l : Roll) (κ : Spot) :
    l.listed.filter (·.spot = κ) = l.filter (·.spot = κ) := by
  have hone : (l.filter (·.spot = κ)).Pairwise fun e f => (e.order f).isLE = true := by
    refine List.Pairwise.imp_of_mem ?_ (List.pairwise_of_forall fun _ _ => trivial)
    intro e f he hf _
    exact Entry.isLE_order.mpr (.inl ((of_decide_eq_true (List.mem_filter.mp he).2).trans
      (of_decide_eq_true (List.mem_filter.mp hf).2).symm))
  have hsub : (l.filter (·.spot = κ)).Sublist l.listed :=
    List.sublist_mergeSort (fun _ _ _ => Std.TransCmp.isLE_trans) Entry.isLE_order_total hone
      List.filter_sublist
  have hkeep := hsub.filter (·.spot = κ)
  rw [List.filter_filter] at hkeep
  simp only [Bool.and_self] at hkeep
  exact (hkeep.eq_of_length
    ((List.mergeSort_perm l _).filter (·.spot = κ)).length_eq.symm).symm

theorem eq_listed {l : Roll} {es : List Entry}
    (hes : es.Pairwise fun e f => e.spot = f.spot ∨ e.spot.Before f.spot)
    (h : ∀ κ : Spot, es.filter (·.spot = κ) = l.filter (·.spot = κ)) : es = l.listed :=
  Session.eq_of_filter_spot hes l.pairwise_listed fun κ => (h κ).trans (l.filter_listed κ).symm

theorem filter_listed_comm (l : Roll) (p : Entry → Bool) :
    l.listed.filter p = listed (l.filter p) := by
  refine eq_listed (l.pairwise_listed.filter p) fun κ => ?_
  rw [List.filter_comm, filter_listed, List.filter_comm]

end Roll

/-! ### The registry and its roll -/

namespace Registry

/-- At each path and kind the registry has the entries of the roll, in the order of the roll. -/
def Keeps (r : Registry) (l : Roll) : Prop :=
  ∀ κ : Spot, r.entriesAt κ = l.filter (·.spot = κ)

theorem entriesAt_empty (κ : Spot) : empty.entriesAt κ = [] := by
  rw [entriesAt, holders_empty, List.map_nil]

theorem entriesAt_takeOut (r : Registry) (path : String) (p : Kind → Subscriber → Bool)
    (κ : Spot) :
    (r.takeOut path p).2.entriesAt κ =
      (r.entriesAt κ).filter fun e => !(e.path == path && p e.kind e.subscriber) := by
  rw [entriesAt, entriesAt, holders_takeOut, List.filter_map]
  by_cases hp : path = κ.path
  · simp [hp, Function.comp_def]
  · have hp' : (κ.path == path) = false := beq_false_of_ne fun h => hp h.symm
    simp [hp, hp', Function.comp_def]

theorem entriesAt_insert {r : Registry} {path : String} {k : Kind} {s : Subscriber}
    (h : (⟨path, k, s⟩ : Entry) ∉ r) (κ : Spot) :
    (r.insert path k s).2.entriesAt κ =
      r.entriesAt κ ++ [(⟨path, k, s⟩ : Entry)].filter (·.spot = κ) := by
  obtain ⟨path', k'⟩ := κ
  rw [mem_iff] at h
  rw [insert, dif_neg h, entriesAt, entriesAt, holders_replace, Holders.of_put]
  by_cases hp : path = path'
  · subst hp
    by_cases hk : k = k'
    · subst hk
      simp [Entry.spot, holders]
    · simp [hk, Entry.spot, holders]
  · simp [hp, Entry.spot]

namespace Keeps

variable {r : Registry} {l : Roll}

theorem mem (h : r.Keeps l) {e : Entry} : e ∈ l ↔ e ∈ r := by
  have he := mem_entriesAt (r := r) (κ := e.spot) (e := e)
  rw [h, List.mem_filter] at he
  simpa using he

theorem nodup (h : r.Keeps l) : l.Nodup := by
  rw [List.nodup_iff_count_le_one]
  intro e
  have hone : (r.entriesAt e.spot).Nodup :=
    (r.nodup_holders _ _).map fun _ _ hst => (Entry.mk.inj hst).2.2
  rw [h] at hone
  rw [← List.count_filter (p := (·.spot = e.spot)) (by simp)]
  exact List.nodup_iff_count_le_one.mp hone e

theorem empty : Registry.empty.Keeps [] :=
  fun κ => entriesAt_empty κ

theorem insert (h : r.Keeps l) {path : String} {k : Kind} {s : Subscriber}
    (hnew : (⟨path, k, s⟩ : Entry) ∉ r) : (r.insert path k s).2.Keeps (l ++ [⟨path, k, s⟩]) := by
  intro κ
  rw [entriesAt_insert hnew, h, List.filter_append]

theorem takeOut (h : r.Keeps l) (path : String) (p : Kind → Subscriber → Bool) :
    (r.takeOut path p).2.Keeps (l.strike path p).2 := by
  intro κ
  rw [entriesAt_takeOut, h, Roll.strike, List.filter_comm]

theorem snapshot_none (h : r.Keeps l) : r.snapshot none = l.listed :=
  Roll.eq_listed r.pairwise_snapshot fun κ => (r.filter_snapshot κ).trans (h κ)

theorem snapshot_some (h : r.Keeps l) (path : String) :
    r.snapshot (some path) = Roll.listed (l.filter (·.path == path)) := by
  change (r.atPath path).entries path (fun _ _ => true) = _
  refine Roll.eq_listed (pairwise_entries _ _ _) fun κ => ?_
  obtain ⟨path', k⟩ := κ
  rw [List.filter_comm]
  by_cases hp : path' = path
  · subst hp
    have hall : (l.filter (·.spot = ⟨path', k⟩)).filter (·.path == path') =
        l.filter (·.spot = ⟨path', k⟩) := by
      refine List.filter_eq_self.mpr fun e he => ?_
      have hs := of_decide_eq_true (List.mem_filter.mp he).2
      exact beq_of_eq (Spot.mk.inj hs).1
    rw [hall, ← h, filter_entries]
    rfl
  · rw [List.filter_eq_nil_iff.mpr, List.filter_eq_nil_iff.mpr]
    · intro e he heq
      have hs := of_decide_eq_true (List.mem_filter.mp he).2
      exact hp ((Spot.mk.inj hs).1.symm.trans (eq_of_beq heq))
    · intro e he heq
      have hs := of_decide_eq_true heq
      exact hp ((Spot.mk.inj hs).1.symm.trans (Holders.mem_entries.mp he).1)

theorem takeOut_fst (h : r.Keeps l) (path : String) (p : Kind → Subscriber → Bool) :
    (r.takeOut path p).1 = (l.strike path p).1 := by
  have hsel : (r.takeOut path p).1 =
      (r.snapshot (some path)).filter fun e => p e.kind e.subscriber := by
    simp only [Registry.takeOut, snapshot, Holders.entries, List.filter_append, List.filter_map,
      List.filter_filter, Function.comp_def, Bool.and_true]
  rw [hsel, h.snapshot_some, Roll.filter_listed_comm, Roll.strike, List.filter_filter]
  simp only [Bool.and_comm]

theorem any_holders (h : r.Keeps l) (path : String) (k : Kind) (p : Subscriber → Bool) :
    (r.holders path k).any p = l.any fun e => e.spot == ⟨path, k⟩ && p e.subscriber := by
  rw [Bool.eq_iff_iff, List.any_eq_true, List.any_eq_true]
  constructor
  · rintro ⟨s, hs, hp⟩
    exact ⟨⟨path, k, s⟩, h.mem.mpr hs, by simp [Entry.spot, hp]⟩
  · rintro ⟨⟨path', k', s⟩, he, hp⟩
    rw [Bool.and_eq_true] at hp
    obtain ⟨rfl, rfl⟩ := Spot.mk.inj (eq_of_beq hp.1)
    exact ⟨s, h.mem.mp he, hp.2⟩

theorem mem_holders (h : r.Keeps l) {path : String} {k : Kind} {s : Subscriber} :
    s ∈ r.holders path k ↔ (⟨path, k, s⟩ : Entry) ∈ l :=
  (h.mem (e := ⟨path, k, s⟩)).symm

theorem alone (h : r.Keeps l) {path : String} {k : Kind} {s : Subscriber}
    (hs : s ∈ r.holders path k) :
    ((r.holders path k).length == 1) =
      l.all fun e => e.spot == ⟨path, k⟩ → e.subscriber == s := by
  have hnd := r.nodup_holders path k
  rw [Bool.eq_iff_iff, beq_iff_eq, List.all_eq_true]
  constructor
  · intro hone e he
    obtain ⟨t, ht⟩ := List.length_eq_one_iff.mp hone
    obtain ⟨path', k', s'⟩ := e
    refine decide_eq_true fun hspot => ?_
    obtain ⟨rfl, rfl⟩ := Spot.mk.inj (eq_of_beq hspot)
    rw [ht, List.mem_singleton] at hs
    have hs' := h.mem_holders.mpr he
    rw [ht, List.mem_singleton] at hs'
    exact beq_of_eq (hs'.trans hs.symm)
  · intro hall
    have heq : ∀ t ∈ r.holders path k, t = s := fun t ht =>
      eq_of_beq (of_decide_eq_true (hall ⟨path, k, t⟩ (h.mem_holders.mp ht)) (by simp [Entry.spot]))
    obtain ⟨n, hn⟩ : ∃ n, r.holders path k = List.replicate n s :=
      ⟨_, List.eq_replicate_of_mem heq⟩
    rw [hn] at hs hnd ⊢
    rw [List.length_replicate]
    have hle := List.nodup_replicate.mp hnd
    have hpos : n ≠ 0 := fun hz => by simp [hz] at hs
    omega

theorem contains (h : r.Keeps l) (path : String) (kind : Selector) (s : Subscriber) :
    r.contains path kind s =
      l.any fun e => e.path == path && kind.selects e.kind && e.subscriber == s := by
  rw [Bool.eq_iff_iff, Registry.contains, List.any_eq_true, List.any_eq_true]
  simp only [List.contains_iff_mem, h.mem_holders, Bool.and_eq_true, beq_iff_eq,
    Selector.selects]
  constructor
  · rintro ⟨k, hk, he⟩
    exact ⟨_, he, ⟨rfl, hk⟩, rfl⟩
  · rintro ⟨e, he, ⟨rfl, hk⟩, rfl⟩
    exact ⟨e.kind, hk, he⟩

theorem watchCount (h : r.Keeps l) (path : String) :
    r.watchCount path = l.countP (·.path == path) := by
  have hlen : r.watchCount path = (r.snapshot (some path)).length := by
    simp [Registry.watchCount, snapshot, Holders.entries, holders, Holders.of]
  rw [hlen, h.snapshot_some, Roll.listed, (List.mergeSort_perm _ _).length_eq,
    List.countP_eq_length_filter]

theorem mem_paths {path : String} : path ∈ r.paths ↔ ∃ e ∈ r, e.path = path := by
  rw [Std.ExtTreeMap.mem_iff_isSome_getElem?, Option.isSome_iff_exists]
  constructor
  · rintro ⟨g, hg⟩
    have hat : r.atPath path = g := by rw [atPath, hg]; rfl
    obtain ⟨k, s, hs⟩ : ∃ k s, s ∈ g.of k := by
      by_contra hno
      have hnil : ∀ k, g.of k = [] := fun k =>
        List.eq_nil_iff_forall_not_mem.mpr fun s hs => hno ⟨k, s, hs⟩
      exact r.occupied path g hg (congrArg₂ Holders.mk (hnil .data) (hnil .children))
    exact ⟨⟨path, k, s⟩, by rw [mem_iff, holders, hat]; exact hs, rfl⟩
  · rintro ⟨e, he, rfl⟩
    cases hg : r.paths[e.path]? with
    | some g => exact ⟨g, rfl⟩
    | none =>
      rw [mem_iff, holders, atPath, hg] at he
      cases hk : e.kind <;> simp [hk, Holders.of, Holders.none] at he

theorem pathCount (h : r.Keeps l) : r.pathCount = (l.map (·.path)).dedup.length := by
  rw [Registry.pathCount, ← Std.ExtTreeMap.length_keys]
  refine List.Perm.length_eq ((List.perm_ext_iff_of_nodup Std.ExtTreeMap.nodup_keys
    (List.nodup_dedup _)).mpr fun path => ?_)
  rw [Std.ExtTreeMap.mem_keys, mem_paths, List.mem_dedup, List.mem_map]
  simp only [h.mem]

/-- Whatever is asked, the registry and its roll answer the same, and the registry then keeps
what the roll has become. -/
theorem perform (h : r.Keeps l) (c : Command) :
    (r.perform c).1 = (l.perform c).1 ∧ (r.perform c).2.Keeps (l.perform c).2 := by
  cases c with
  | register path kind s =>
    cases kind with
    | any => exact ⟨rfl, h⟩
    | only k =>
      simp only [Registry.perform, register, Roll.perform]
      by_cases hs : (⟨path, k, s⟩ : Entry) ∈ r
      · have hold : r.insert path k s = (false, r) := dif_pos hs
        rw [if_pos (h.mem.mpr hs), hold]
        exact ⟨rfl, h⟩
      · rw [if_neg fun hl => hs (h.mem.mp hl), (r.insert_fst path k s).mpr hs]
        exact ⟨rfl, h.insert hs⟩
  | unregister path kind target =>
    exact ⟨congrArg Reply.entries (h.takeOut_fst path _), h.takeOut path _⟩
  | takeTriggered path type =>
    exact ⟨congrArg Reply.entries (h.takeOut_fst path _), h.takeOut path _⟩
  | drain => exact ⟨congrArg Reply.entries h.snapshot_none, .empty⟩
  | contains path kind s => exact ⟨congrArg Reply.holds (h.contains path kind s), h⟩
  | registeredKinds path kind target =>
    refine ⟨congrArg Reply.kinds ?_, h⟩
    simp only [registeredKinds, h.any_holders]
  | subscriberKinds path kind s =>
    refine ⟨congrArg Reply.shares ?_, h⟩
    simp only [subscriberKinds, List.contains_eq_mem, h.mem_holders]
    refine List.map_congr_left fun k hk => ?_
    rw [h.alone (h.mem_holders.mpr (of_decide_eq_true (List.mem_filter.mp hk).2))]
  | snapshot path =>
    refine ⟨congrArg Reply.entries ?_, h⟩
    cases path with
    | none =>
      rw [h.snapshot_none]
      simp only [Option.all, List.filter_true]
    | some path => exact h.snapshot_some path
  | watchCount path => exact ⟨congrArg Reply.count (h.watchCount path), h⟩
  | pathCount => exact ⟨congrArg Reply.count h.pathCount, h⟩

theorem run (h : r.Keeps l) (cs : List Command) :
    (r.run cs).1 = (l.run cs).1 ∧ (r.run cs).2.Keeps (l.run cs).2 := by
  induction cs generalizing r l with
  | nil => exact ⟨rfl, h⟩
  | cons c cs ih =>
    obtain ⟨hreply, hkeeps⟩ := h.perform c
    obtain ⟨hreplies, hend⟩ := ih hkeeps
    simp only [Registry.run, Roll.run]
    exact ⟨congrArg₂ List.cons hreply hreplies, hend⟩

end Keeps

/-- After any commands the replies are those read off one roll, on which no entry stands twice,
and so is the reply to whatever is asked next. -/
theorem answers_from_roll (cs : List Command) :
    (empty.run cs).1 = (Roll.run [] cs).1 ∧ (Roll.run [] cs).2.Nodup ∧
      ∀ c, ((empty.run cs).2.perform c).1 = ((Roll.run [] cs).2.perform c).1 := by
  obtain ⟨hreplies, hkeeps⟩ := Keeps.empty.run cs
  exact ⟨hreplies, hkeeps.nodup, fun c => (hkeeps.perform c).1⟩

end Registry

end NodeWatch
