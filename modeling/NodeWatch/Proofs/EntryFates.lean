import NodeWatch.Proofs.ElementaryChanges

/-! What a journal says about one entry: the registrations it had, one after another, and what became
of each. Nothing is registered while it is live, and only live entries are taken out, so every
consumption ends the latest registration and no registration is ended twice. -/

namespace NodeWatch

/-- What was taken out, the latest first. -/
def takings (os : List Occurrence) : List Consumption :=
  os.flatMap Occurrence.consumptions

/-- The announcements to subscribers that were queued, the latest first. -/
def tellings (os : List Occurrence) : List Delivery :=
  os.filterMap Occurrence.announced?

theorem takings_append (os js : List Occurrence) : takings (os ++ js) = takings os ++ takings js :=
  List.flatMap_append

theorem tellings_append (os js : List Occurrence) :
    tellings (os ++ js) = tellings os ++ tellings js :=
  List.filterMap_append

theorem takings_of_plain {os : List Occurrence} (h : ∀ o ∈ os, o.Plain) : takings os = [] :=
  List.flatMap_eq_nil_iff.mpr fun o ho => (h o ho).2.1

theorem tellings_of_plain {os : List Occurrence} (h : ∀ o ∈ os, o.Plain) : tellings os = [] :=
  List.filterMap_eq_nil_iff.mpr fun o ho => (h o ho).2.2

namespace Occurrence

/-- The entry is live after these occurrences, the latest first. -/
def Live (e : Entry) : List Occurrence → Prop
  | [] => False
  | o :: os => o.armed? = some e ∨ e ∉ o.consumptions.map Consumption.entry ∧ Live e os

/-- Entries are registered while they are not live, and taken out, each once, while they are. -/
def Sober : List Occurrence → Prop
  | [] => True
  | o :: os => (∀ e, o.armed? = some e → ¬Live e os) ∧
    (o.consumptions.map Consumption.entry).Nodup ∧
    (∀ e ∈ o.consumptions.map Consumption.entry, Live e os) ∧ Sober os

/-- The latest registration, if it is live, comes to this end. -/
def concluded {β : Type} (x : β) : List (Option β) → List (Option β)
  | none :: fs => some x :: fs
  | fs => fs

theorem length_concluded {β : Type} (x : β) (fs : List (Option β)) :
    (concluded x fs).length = fs.length := by
  unfold concluded
  split <;> rfl

variable {α : Type}

/-- What became of each registration of an entry, the latest first: it is live, or somebody consumed
it for some cause. -/
def fates (e : Entry) : List (α × Occurrence) → List (Option (α × Cause))
  | [] => []
  | (a, o) :: os =>
    if o.armed? = some e then none :: fates e os
    else match o.consumptions.find? (·.entry == e) with
      | some x => concluded (a, x.cause) (fates e os)
      | none => fates e os

theorem consumptions_of_armed {o : Occurrence} {e : Entry} (h : o.armed? = some e) :
    o.consumptions = [] := by
  cases o <;> first | rfl | cases h

theorem length_fates (e : Entry) (os : List (α × Occurrence)) :
    (fates e os).length = ((os.map Prod.snd).filterMap armed?).count e := by
  induction os with
  | nil => rfl
  | cons y os ih =>
    obtain ⟨a, o⟩ := y
    simp only [fates, List.map_cons, List.filterMap_cons]
    by_cases ha : o.armed? = some e
    · simp [ha, ih]
    · rw [if_neg ha]
      cases hf : o.armed? with
      | none => split <;> simp only [length_concluded, ih]
      | some f =>
        rw [List.count_cons_of_ne fun hfe => ha (by rw [hf, hfe])]
        split <;> simp only [length_concluded, ih]

/-- The latest registration, and no other, may be live. -/
theorem fates_of_sober (e : Entry) {os : List (α × Occurrence)} (h : Sober (os.map Prod.snd)) :
    (Live e (os.map Prod.snd) ∧ ∃ fs, fates e os = none :: fs ∧ none ∉ fs) ∨
      (¬Live e (os.map Prod.snd) ∧ none ∉ fates e os) := by
  induction os with
  | nil => exact .inr ⟨id, List.not_mem_nil⟩
  | cons y os ih =>
    obtain ⟨a, o⟩ := y
    obtain ⟨hnew, _, hlive, hrest⟩ := h
    simp only [List.map_cons, Live, fates]
    by_cases ha : o.armed? = some e
    · have hnot := (ih hrest).resolve_left fun hl => hnew e ha hl.1
      exact .inl ⟨.inl ha, fates e os, if_pos ha, hnot.2⟩
    · rw [if_neg ha]
      cases hf : o.consumptions.find? (·.entry == e) with
      | some x =>
        have hx : e ∈ o.consumptions.map Consumption.entry :=
          List.mem_map.mpr ⟨x, List.mem_of_find?_eq_some hf, by
            simpa using List.find?_some hf⟩
        obtain ⟨_, fs, hfs, hnone⟩ := (ih hrest).resolve_right fun hl => hl.1 (hlive e hx)
        refine .inr ⟨?_, ?_⟩
        · rintro (h | h)
          · exact ha h
          · exact h.1 hx
        · rw [hfs]
          simpa [concluded] using hnone
      | none =>
        have hx : e ∉ o.consumptions.map Consumption.entry := by
          simpa using hf
        simpa [ha, hx] using ih hrest

theorem filter_entry {l : List Consumption} (h : (l.map Consumption.entry).Nodup) {x : Consumption}
    (hx : x ∈ l) : l.filter (·.entry == x.entry) = [x] := by
  obtain ⟨l₁, l₂, rfl⟩ := List.append_of_mem hx
  rw [List.map_append, List.map_cons] at h
  have hmiddle := (List.nodup_cons.mp (List.nodup_middle.mp h)).1
  have hnone : ∀ l : List Consumption, (∀ z ∈ l, z ∈ l₁ ++ l₂) →
      l.filter (·.entry == x.entry) = [] := by
    intro l hl
    refine List.filter_eq_nil_iff.mpr fun z hz he => hmiddle ?_
    rw [← List.map_append]
    exact List.mem_map.mpr ⟨z, hl z hz, by simpa using he⟩
  rw [List.filter_append, List.filter_cons_of_pos (by simp),
    hnone l₁ fun z hz => List.mem_append_left _ hz,
    hnone l₂ fun z hz => List.mem_append_right _ hz]
  rfl

/-- Whoever consumed an entry, for whatever cause, put an end to as many of its registrations. -/
theorem countP_fates (e : Entry) (P : α × Cause → Bool) {os : List (α × Occurrence)}
    (h : Sober (os.map Prod.snd)) :
    (fates e os).countP (fun f => f.any P) =
      (os.flatMap fun y => y.2.consumptions.map (Prod.mk y.1)).countP fun z =>
        z.2.entry == e && P (z.1, z.2.cause) := by
  induction os with
  | nil => rfl
  | cons y os ih =>
    obtain ⟨a, o⟩ := y
    obtain ⟨_, hnodup, hlive, hrest⟩ := h
    have hsober := fates_of_sober e hrest
    simp only [List.flatMap_cons, List.countP_append, fates]
    rw [← ih hrest]
    by_cases ha : o.armed? = some e
    · rw [if_pos ha, consumptions_of_armed ha]
      simp
    · rw [if_neg ha]
      rw [List.countP_map]
      cases hf : o.consumptions.find? (·.entry == e) with
      | some x =>
        have hmem := List.mem_of_find?_eq_some hf
        obtain rfl : x.entry = e := by simpa using List.find?_some hf
        have hx : x.entry ∈ o.consumptions.map Consumption.entry := List.mem_map_of_mem hmem
        obtain ⟨_, fs, hfs, _⟩ := hsober.resolve_right fun hl => hl.1 (hlive _ hx)
        have hone : o.consumptions.countP
            ((fun z : α × Consumption => z.2.entry == x.entry && P (z.1, z.2.cause)) ∘ Prod.mk a) =
              [x].countP fun z => P (a, z.cause) := by
          rw [← filter_entry hnodup hmem, List.countP_filter]
          exact List.countP_congr fun z _ => by simp [and_comm]
        rw [hone, hfs]
        simp [concluded, List.countP_cons, add_comm]
      | none =>
        have hx : ∀ z ∈ o.consumptions, z.entry ≠ e := by
          simpa using hf
        have hzero : o.consumptions.countP
            ((fun z : α × Consumption => z.2.entry == e && P (z.1, z.2.cause)) ∘ Prod.mk a) = 0 := by
          rw [List.countP_eq_zero]
          intro z hz
          simp [hx z hz]
        rw [hzero, zero_add]

end Occurrence

namespace Client

/-- The journal is right about the registry. -/
structure Truthful (c : Client) : Prop where
  sober : Occurrence.Sober c.journal
  live : ∀ e, e ∈ c.registry ↔ Occurrence.Live e c.journal

theorem truthful_iff {c : Client} : c.Truthful ↔
    Occurrence.Sober c.journal ∧ ∀ e, e ∈ c.registry ↔ Occurrence.Live e c.journal :=
  ⟨fun h => ⟨h.sober, h.live⟩, fun h => ⟨h.1, h.2⟩⟩

theorem Truthful.touch {c c' : Client} (h : c.Truthful) (ht : c.Touch c') : c'.Truthful := by
  cases ht with
  | silent registry journal =>
    exact ⟨journal ▸ h.sober, fun e => by rw [registry, h.live, journal]⟩
  | noted o unarmed untaken registry journal =>
    have hlive : ∀ e, Occurrence.Live e (o :: c.journal) ↔ Occurrence.Live e c.journal := by
      simp [Occurrence.Live, unarmed, untaken]
    refine ⟨journal ▸ ⟨by simp [unarmed], by simp [untaken], by simp [untaken], h.sober⟩, ?_⟩
    intro e
    rw [registry, h.live, journal, hlive]
  | armed f new registry journal =>
    refine ⟨journal ▸ ⟨?_, List.nodup_nil, by simp [Occurrence.consumptions], h.sober⟩, fun e => ?_⟩
    · intro e he
      obtain rfl : f = e := Option.some.inj he
      rw [← h.live]
      exact new
    · rw [registry, h.live, journal]
      simp [Occurrence.Live, Occurrence.armed?, Occurrence.consumptions, eq_comm]
  | taken cause es distinct live registry journal =>
    have hentries : (es.map (Consumption.mk cause)).map Consumption.entry = es := by
      simp [Function.comp_def]
    refine ⟨journal ▸ ⟨by simp [Occurrence.armed?], ?_, ?_, h.sober⟩, fun e => ?_⟩
    · rw [Occurrence.consumptions, hentries]
      exact distinct
    · rw [Occurrence.consumptions, hentries]
      exact fun e he => (h.live e).mp (live e he)
    · rw [registry, h.live, journal, Occurrence.Live, Occurrence.consumptions, hentries]
      simp [Occurrence.armed?, and_comm]

theorem Truthful.touched {c c' : Client} (h : c.Truthful) (ht : c.Touched c') : c'.Truthful := by
  induction ht with
  | refl => exact h
  | tail _ ht ih => exact ih.touch ht

/-- Nothing is ever struck from the journal. -/
theorem Touched.journal {c c' : Client} (h : c.Touched c') :
    ∃ os, c'.journal = os ++ c.journal := by
  induction h with
  | refl => exact ⟨[], rfl⟩
  | tail _ ht ih =>
    obtain ⟨os, hos⟩ := ih
    cases ht with
    | silent registry journal => exact ⟨os, journal.trans hos⟩
    | noted o unarmed untaken registry journal => exact ⟨o :: os, by rw [journal, hos]; rfl⟩
    | armed e new registry journal => exact ⟨.armed e :: os, by rw [journal, hos]; rfl⟩
    | taken cause es distinct live registry journal =>
      exact ⟨.taken cause es :: os, by rw [journal, hos]; rfl⟩

/-- An entry that was not registered in the meantime was there before. -/
theorem Touched.mem_of_mem {c c' : Client} (h : c.Touched c') {os : List Occurrence}
    (hj : c'.journal = os ++ c.journal) {e : Entry} (he : e ∈ c'.registry)
    (hn : .armed e ∉ os) : e ∈ c.registry := by
  induction h generalizing os with
  | refl => exact he
  | tail h ht ih =>
    obtain ⟨os', hos'⟩ := Touched.journal h
    cases ht with
    | silent registry journal =>
      exact ih (journal ▸ hj) ((registry e).mp he) hn
    | noted o unarmed untaken registry journal =>
      rw [journal, hos', ← List.cons_append] at hj
      rw [← List.append_cancel_right hj] at hn
      exact ih hos' ((registry e).mp he) fun hm => hn (.tail _ hm)
    | armed f new registry journal =>
      rw [journal, hos', ← List.cons_append] at hj
      rw [← List.append_cancel_right hj] at hn
      rcases (registry e).mp he with rfl | he
      · exact absurd (.head _) hn
      · exact ih hos' he fun hm => hn (.tail _ hm)
    | taken cause es distinct live registry journal =>
      rw [journal, hos', ← List.cons_append] at hj
      rw [← List.append_cancel_right hj] at hn
      exact ih hos' ((registry e).mp he).1 fun hm => hn (.tail _ hm)

end Client

end NodeWatch
