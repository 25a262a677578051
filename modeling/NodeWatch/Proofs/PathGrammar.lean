import Mathlib.Data.List.Basic
import NodeWatch.Fault

/-! The grammar of paths. A path is the root, or one segment after another, each behind a slash. The
pieces between the slashes are the only way to read a text so, and the faults that are looked for in
turn are just what keeps a text from being read so. -/

namespace NodeWatch.Path

/-- The first and the last code point of each range of characters that no path holds. -/
def reserved : List (Nat × Nat) :=
  [(0x0000, 0x001f), (0x007f, 0x009f), (0xe000, 0xf8ff), (0xfff0, 0xffff)]

structure IsSegment (s : String) : Prop where
  nonempty : s ≠ ""
  proper : s ≠ "." ∧ s ≠ ".."
  characters : ∀ c ∈ s.toList, c ≠ '/' ∧ ∀ r ∈ reserved, ¬(r.1 ≤ c.toNat ∧ c.toNat ≤ r.2)

/-- The text is these segments, each behind a slash. -/
structure Spells (ss : List String) (p : String) : Prop where
  nonempty : ss ≠ []
  segments : ∀ s ∈ ss, IsSegment s
  spelling : p = String.join (ss.map ("/" ++ ·))

theorem forbidden_iff {c : Char} :
    forbidden c = true ↔ ∃ r ∈ reserved, r.1 ≤ c.toNat ∧ c.toNat ≤ r.2 := by
  simp [forbidden, reserved, or_assoc]

section Pieces

variable {cs s : List Char} {ls : List (List Char)}

theorem flatMap_pieces (cs : List Char) : (pieces cs).flatMap ('/' :: ·) = '/' :: cs := by
  induction cs with
  | nil => rfl
  | cons c cs ih =>
    by_cases hc : c = '/'
    · rw [pieces, if_pos hc, List.flatMap_cons, ih, hc]
      rfl
    · rw [pieces, if_neg hc]
      cases hp : pieces cs with
      | nil => simp [hp] at ih
      | cons l ls =>
        rw [hp, List.flatMap_cons, List.cons_append, List.cons_inj_right] at ih
        simp [ih]

theorem not_mem_of_mem_pieces (h : s ∈ pieces cs) : '/' ∉ s := by
  induction cs generalizing s with
  | nil =>
    rw [List.mem_singleton.mp h]
    exact List.not_mem_nil
  | cons c cs ih =>
    by_cases hc : c = '/'
    · rw [pieces, if_pos hc] at h
      rcases List.mem_cons.mp h with rfl | h
      · exact List.not_mem_nil
      · exact ih h
    · rw [pieces, if_neg hc] at h
      cases hp : pieces cs with
      | nil =>
        rw [hp] at h
        rw [List.mem_singleton.mp h]
        simpa using Ne.symm hc
      | cons l ls =>
        rw [hp] at ih h
        rcases List.mem_cons.mp h with rfl | h
        · simpa [Ne.symm hc] using ih (.head _)
        · exact ih (.tail _ h)

theorem pieces_of_not_mem (h : '/' ∉ s) : pieces s = [s] := by
  induction s with
  | nil => rfl
  | cons c s ih =>
    rw [List.mem_cons, not_or] at h
    rw [pieces, if_neg (Ne.symm h.1), ih h.2]

theorem pieces_append_slash (t : List Char) (h : '/' ∉ s) :
    pieces (s ++ '/' :: t) = s :: pieces t := by
  induction s with
  | nil => exact if_pos rfl
  | cons c s ih =>
    rw [List.mem_cons, not_or] at h
    rw [List.cons_append, pieces, if_neg (Ne.symm h.1), ih h.2]

/-- Texts without slashes, with a slash between any two, are the pieces of what they make up. -/
theorem pieces_flatMap (hs : '/' ∉ s) (hl : ∀ l ∈ ls, '/' ∉ l) :
    pieces (s ++ ls.flatMap ('/' :: ·)) = s :: ls := by
  induction ls generalizing s with
  | nil => rw [List.flatMap_nil, List.append_nil, pieces_of_not_mem hs]
  | cons l ls ih =>
    rw [List.flatMap_cons, List.cons_append, pieces_append_slash _ hs,
      ih (hl l (.head _)) fun k hk => hl k (.tail _ hk)]

theorem mem_of_mem_pieces {c : Char} (hs : s ∈ pieces cs) (hc : c ∈ s) : c ∈ cs := by
  have hm : c ∈ '/' :: cs := by
    rw [← flatMap_pieces]
    exact List.mem_flatMap.mpr ⟨s, hs, .tail _ hc⟩
  rcases List.mem_cons.mp hm with rfl | hm
  · exact absurd hc (not_mem_of_mem_pieces hs)
  · exact hm

theorem exists_mem_pieces {c : Char} (hc : c ∈ cs) (hn : c ≠ '/') : ∃ s ∈ pieces cs, c ∈ s := by
  have hm : c ∈ (pieces cs).flatMap ('/' :: ·) := by
    rw [flatMap_pieces]
    exact .tail _ hc
  obtain ⟨s, hs, hcs⟩ := List.mem_flatMap.mp hm
  exact ⟨s, hs, (List.mem_cons.mp hcs).resolve_left hn⟩

theorem pieces_ne_nil (cs : List Char) : pieces cs ≠ [] := by
  intro h
  simpa [h] using flatMap_pieces cs

/-- A slash at the end has an empty piece behind it. -/
theorem pieces_concat_slash (cs : List Char) : pieces (cs ++ ['/']) = pieces cs ++ [[]] := by
  induction cs with
  | nil => rfl
  | cons c cs ih =>
    rw [List.cons_append, pieces, pieces, ih]
    split_ifs
    · rfl
    · cases hp : pieces cs with
      | nil => exact absurd hp (pieces_ne_nil cs)
      | cons l ls => rfl

theorem nil_mem_pieces (h : cs.getLast? = some '/') : [] ∈ pieces cs := by
  obtain ⟨ds, rfl⟩ := List.getLast?_eq_some_iff.mp h
  rw [pieces_concat_slash]
  exact List.mem_append_right _ (.head _)

end Pieces

theorem segmentFault?_eq_none_iff {s : List Char} :
    segmentFault? s = none ↔ s ≠ [] ∧ s ≠ ['.'] ∧ s ≠ ['.', '.'] := by
  unfold segmentFault?
  split_ifs with h h'
  · simp [h]
  · rcases h' with rfl | rfl <;> simp
  · simpa [h] using h'

/-- The look at the last character decides nothing: the piece behind a slash there is empty. -/
theorem faultOf?_slash_eq_none_iff {rest : List Char} (hr : rest ≠ []) :
    faultOf? ('/' :: rest) = none ↔
      (∀ s ∈ pieces rest, segmentFault? s = none) ∧ ∀ c ∈ rest, forbidden c = false := by
  rw [faultOf?, if_neg hr]
  split_ifs with hl
  · refine iff_of_false nofun fun h => ?_
    exact (segmentFault?_eq_none_iff.mp (h.1 [] (nil_mem_pieces hl))).1 rfl
  · cases hf : (pieces rest).findSome? segmentFault? with
    | some f =>
      obtain ⟨s, hs, he⟩ := List.exists_of_findSome?_eq_some hf
      refine iff_of_false nofun fun h => ?_
      rw [h.1 s hs] at he
      cases he
    | none =>
      rw [List.findSome?_eq_none_iff] at hf
      simp only [Option.map_eq_none_iff, List.find?_eq_none, Bool.not_eq_true]
      exact ⟨fun hc => ⟨hf, hc⟩, And.right⟩

theorem exists_slash_of_faultOf? {cs : List Char} (h : faultOf? cs = none) :
    ∃ rest, cs = '/' :: rest := by
  unfold faultOf? at h
  split at h
  · cases h
  · exact ⟨_, rfl⟩
  · cases h

theorem isSegment_iff {s : String} :
    IsSegment s ↔
      segmentFault? s.toList = none ∧ '/' ∉ s.toList ∧ ∀ c ∈ s.toList, forbidden c = false := by
  have hproper : segmentFault? s.toList = none ↔ s ≠ "" ∧ s ≠ "." ∧ s ≠ ".." := by
    rw [segmentFault?_eq_none_iff]
    simp only [ne_eq, ← String.toList_inj]
    rfl
  have hforbidden : ∀ c, forbidden c = false ↔ ∀ r ∈ reserved, ¬(r.1 ≤ c.toNat ∧ c.toNat ≤ r.2) := by
    intro c
    rw [← Bool.not_eq_true, forbidden_iff]
    simp only [not_exists, not_and]
  constructor
  · intro h
    exact ⟨hproper.mpr ⟨h.nonempty, h.proper⟩, fun hc => (h.characters _ hc).1 rfl,
      fun c hc => (hforbidden c).mpr (h.characters c hc).2⟩
  · rintro ⟨hs, hslash, hc⟩
    refine ⟨(hproper.mp hs).1, (hproper.mp hs).2, fun c hm => ⟨?_, (hforbidden c).mp (hc c hm)⟩⟩
    rintro rfl
    exact hslash hm

instance : DecidablePred IsSegment := fun s =>
  decidable_of_iff (segmentFault? s.toList = none ∧ '/' ∉ s.toList ∧ s.toList.any forbidden = false)
    (by rw [isSegment_iff, List.any_eq_false]; simp only [Bool.not_eq_true])

section Spells

variable {ss ts : List String} {p : String}

theorem toList_spelling (ss : List String) :
    (String.join (ss.map ("/" ++ ·))).toList = (ss.map String.toList).flatMap ('/' :: ·) := by
  rw [String.toList_join, List.flatMap_map, List.flatMap_map]
  congr 1
  funext s
  exact String.toList_append

/-- The segments of a text are the pieces behind its first slash. -/
theorem spells_iff :
    Spells ss p ↔ (∀ s ∈ ss, IsSegment s) ∧
      ∃ rest, p.toList = '/' :: rest ∧ ss.map String.toList = pieces rest := by
  constructor
  · intro h
    obtain ⟨s, ts, rfl⟩ := List.exists_cons_of_ne_nil h.nonempty
    have hs : ∀ t ∈ s :: ts, '/' ∉ t.toList := fun t ht => (isSegment_iff.mp (h.segments t ht)).2.1
    refine ⟨h.segments, s.toList ++ (ts.map String.toList).flatMap ('/' :: ·), ?_, ?_⟩
    · rw [h.spelling, toList_spelling, List.map_cons, List.flatMap_cons, List.cons_append]
    · rw [pieces_flatMap (hs s (.head _)), List.map_cons]
      intro l hl
      obtain ⟨t, ht, rfl⟩ := List.mem_map.mp hl
      exact hs t (.tail _ ht)
  · rintro ⟨hs, rest, hp, hm⟩
    refine ⟨?_, hs, ?_⟩
    · rintro rfl
      exact pieces_ne_nil rest hm.symm
    · rw [← String.toList_inj, toList_spelling, hm, flatMap_pieces, hp]

theorem Spells.unique (h : Spells ss p) (h' : Spells ts p) : ss = ts := by
  obtain ⟨-, rest, hp, hm⟩ := spells_iff.mp h
  obtain ⟨-, rest', hp', hm'⟩ := spells_iff.mp h'
  obtain rfl : rest = rest' := by simpa [hp] using hp'
  exact List.map_injective_iff.mpr (fun _ _ => String.toList_inj.mp) (hm.trans hm'.symm)

/-- The root has no segments: its only piece is empty. -/
theorem not_spells_root : ¬Spells ss "/" := by
  intro h
  obtain ⟨hs, rest, hp, hm⟩ := spells_iff.mp h
  obtain rfl : rest = [] := by simpa using hp.symm
  obtain ⟨s, rfl, hl⟩ := List.map_eq_singleton_iff.mp hm
  exact (hs s (.head _)).nonempty (String.toList_eq_nil_iff.mp hl)

theorem exists_spells_iff {rest : List Char} (hp : p.toList = '/' :: rest) :
    (∃ ss, Spells ss p) ↔
      (∀ s ∈ pieces rest, segmentFault? s = none) ∧ ∀ c ∈ rest, forbidden c = false := by
  constructor
  · rintro ⟨ss, h⟩
    obtain ⟨hs, rest', hp', hm⟩ := spells_iff.mp h
    obtain rfl : rest' = rest := by simpa [hp] using hp'.symm
    have hl : ∀ l ∈ pieces rest', segmentFault? l = none ∧ ∀ c ∈ l, forbidden c = false := by
      rw [← hm, List.forall_mem_map]
      exact fun s hs' => ⟨(isSegment_iff.mp (hs s hs')).1, (isSegment_iff.mp (hs s hs')).2.2⟩
    refine ⟨fun l hm => (hl l hm).1, fun c hc => ?_⟩
    by_cases hn : c = '/'
    · rw [hn]
      decide
    · obtain ⟨l, hm, hcl⟩ := exists_mem_pieces hc hn
      exact (hl l hm).2 c hcl
  · rintro ⟨hs, hc⟩
    refine ⟨(pieces rest).map String.ofList, spells_iff.mpr ⟨?_, rest, hp, ?_⟩⟩
    · rw [List.forall_mem_map]
      intro l hl
      rw [isSegment_iff, String.toList_ofList]
      exact ⟨hs l hl, not_mem_of_mem_pieces hl, fun c hcl => hc c (mem_of_mem_pieces hl hcl)⟩
    · rw [List.map_map]
      exact List.map_id'' (fun _ => String.toList_ofList) _

theorem fault?_eq_none_iff : fault? p = none ↔ p = "/" ∨ ∃ ss, Spells ss p := by
  by_cases hp : ∃ rest, p.toList = '/' :: rest
  · obtain ⟨rest, hp⟩ := hp
    rw [exists_spells_iff hp, fault?, hp, ← String.toList_inj, hp]
    by_cases hr : rest = []
    · simp [faultOf?, hr]
    · rw [faultOf?_slash_eq_none_iff hr]
      simp [hr]
  · refine iff_of_false (fun h => hp (exists_slash_of_faultOf? h)) ?_
    rintro (rfl | ⟨ss, h⟩)
    · exact hp ⟨[], rfl⟩
    · obtain ⟨-, rest, he, -⟩ := spells_iff.mp h
      exact hp ⟨rest, he⟩

/-- A path is accepted just when it is the root or is spelled by segments; any other text is an invalid
argument. No path is spelled by two lists of segments, and the root by none. -/
theorem validate_iff_spells (p : String) :
    (validate p = .ok () ↔ p = "/" ∨ ∃ ss, Spells ss p) ∧
      (validate p ≠ .ok () → ∃ text, validate p = .error (.invalidArgument text)) ∧
      (∀ ss ts, Spells ss p → Spells ts p → ss = ts) ∧ ∀ ss, Spells ss p → p ≠ "/" := by
  refine ⟨?_, ?_, fun ss ts => Spells.unique, ?_⟩
  · rw [← fault?_eq_none_iff, validate]
    cases fault? p <;> simp
  · rw [validate]
    cases fault? p <;> simp
  · rintro ss h rfl
    exact not_spells_root h

/-- Characters of several bytes are kept, and so is a segment of three dots. -/
theorem validate_beyond_ascii :
    Spells ["zk", "ünïcode", "..."] "/zk/ünïcode/..." ∧ validate "/zk/ünïcode/..." = .ok () ∧
      validate "/zk//a" = .error (.invalidArgument "empty node name specified in /zk//a") := by
  have hs : Spells ["zk", "ünïcode", "..."] "/zk/ünïcode/..." := ⟨by simp, by decide, rfl⟩
  exact ⟨hs, (validate_iff_spells _).1.mpr (.inr ⟨_, hs⟩), by decide⟩

end Spells

end NodeWatch.Path
