import NodeWatch.Settings.Document

/-! What a source says about each part of a document. A source is laid over a document saying by
saying, and what becomes of a part depends on what is said about that part alone, as long as only
tables are said to be where the part's own table is. -/

namespace NodeWatch.Settings

open Document (Fields overlay overlayFields put layer)

/-- A value that a source gives, and the way from a document to where it belongs. -/
abbrev Saying := Place × Document

namespace Saying

/-- Lays what is said over what was there. -/
def lay (acc : Option Document) : Saying → Document
  | ([], v) => overlay acc v
  | (part :: rest, v) => put v (part :: rest) (acc.getD .null)

/-- What a saying says about the part with this name. -/
def about (name : String) : Saying → List Saying
  | ([], .table fs) => (fs.filter fun f => lowerName f.1 = name).map fun f => ([], f.2)
  | (.field k :: rest, v) => if lowerName k = name then [(rest, v)] else []
  | _ => []

/-- It speaks of a table, or of a part of one. -/
def Tabular : Saying → Prop
  | ([], .table _) => True
  | (.field _ :: _, _) => True
  | _ => False

instance : DecidablePred Tabular
  | ([], .table _) | (.field _ :: _, _) => isTrue trivial
  | (.item _ :: _, _) => isFalse id
  | ([], .null) | ([], .bool _) | ([], .int _) | ([], .real _) | ([], .text _) | ([], .moment _)
  | ([], .list _) => isFalse id

end Saying

abbrev Sayings := List Saying

namespace Sayings

/-- What is there when everything said was laid over what there was. -/
def result (l : Sayings) (acc : Option Document) : Option Document :=
  l.foldl (fun acc a => some (a.lay acc)) acc

def about (l : Sayings) (name : String) : Sayings :=
  l.flatMap (Saying.about name)

/-- What is said about the part that is found under these names. -/
def along (l : Sayings) (names : List String) : Sayings :=
  names.foldl about l

/-- Whatever is said, there is a table. -/
def Tabular (l : Sayings) : Prop :=
  ∀ a ∈ l, a.Tabular

instance : DecidablePred Tabular := fun l => inferInstanceAs (Decidable (∀ a ∈ l, a.Tabular))

variable {l m : Sayings} {acc : Option Document}

theorem result_append : (l ++ m).result acc = m.result (l.result acc) :=
  List.foldl_append

theorem along_append (names : List String) :
    (l ++ m).along names = l.along names ++ m.along names := by
  induction names generalizing l m with
  | nil => rfl
  | cons name names ih =>
    have habout : (l ++ m).about name = l.about name ++ m.about name := List.flatMap_append
    change ((l ++ m).about name).along names = _
    rw [habout]
    exact ih

theorem along_nil (names : List String) : along [] names = [] := by
  induction names with
  | nil => rfl
  | cons name names ih => exact ih

end Sayings

def sayings (source : Fields) : Sayings :=
  source.map fun f => (.ofKey f.1, f.2)

theorem Place.ofKey_eq_cons (key : String) : ∃ name rest, ofKey key = .field name :: rest := by
  unfold ofKey
  cases h : parse? key with
  | none => exact ⟨key, [], rfl⟩
  | some p =>
    obtain ⟨⟨name, rest⟩, _, h⟩ := Option.bind_eq_some_iff.mp h
    obtain ⟨parts, _, h⟩ := Option.bind_eq_some_iff.mp h
    exact ⟨name, parts, (Option.some.inj h).symm⟩

theorem tabular_sayings (source : Fields) : (sayings source).Tabular := by
  intro a ha
  obtain ⟨f, _, rfl⟩ := List.mem_map.mp ha
  obtain ⟨name, rest, he⟩ := Place.ofKey_eq_cons f.1
  rw [he]
  trivial

theorem result_sayings (source : Fields) (root : Document) :
    (sayings source).result (some root) = some (layer root source) := by
  induction source generalizing root with
  | nil => rfl
  | cons f fs ih =>
    have hlay : Saying.lay (some root) (.ofKey f.1, f.2) = put f.2 (.ofKey f.1) root := by
      obtain ⟨name, rest, he⟩ := Place.ofKey_eq_cons f.1
      rw [he]
      rfl
    change (sayings fs).result (some (Saying.lay (some root) (.ofKey f.1, f.2))) = _
    rw [hlay]
    exact ih (put f.2 (.ofKey f.1) root)

theorem get?_overlayFields (base fs : Fields) (name : String) :
    Fields.get? (overlayFields base fs) name =
      (Saying.about name ([], .table fs)).foldl (fun acc a => some (a.lay acc))
        (Fields.get? base name) := by
  induction fs generalizing base with
  | nil => simp [overlayFields, Saying.about]
  | cons f fs ih =>
    obtain ⟨k, v⟩ := f
    rw [overlayFields, ih, Fields.get?_set]
    by_cases hk : lowerName k = name
    · subst hk
      simp [Saying.about, Saying.lay]
    · simp [Saying.about, hk]

theorem lay_table {a : Saying} (ha : a.Tabular) (fs : Fields) :
    ∃ fs', a.lay (some (.table fs)) = .table fs' ∧ ∀ name, Fields.get? fs' name =
      Sayings.result (a.about name) (Fields.get? fs name) := by
  obtain ⟨place, v⟩ := a
  cases place with
  | nil =>
    cases v with
    | table gs =>
      refine ⟨overlayFields fs gs, ?_, get?_overlayFields fs gs⟩
      cases gs with
      | nil => simp [Saying.lay, overlay, overlayFields]
      | cons g gs => rfl
    | null | bool | int | real | text | moment | list => exact absurd ha id
  | cons part rest =>
    cases part with
    | item i => exact absurd ha id
    | field k =>
      have hset : ∀ (d : Document) name, Fields.get? (Fields.set fs (lowerName k) d) name =
          if lowerName k = name then some d else Fields.get? fs name := fun d name =>
        Fields.get?_set fs (lowerName k) name d
      cases rest with
      | nil =>
        refine ⟨_, rfl, fun name => ?_⟩
        refine (hset _ name).trans ?_
        by_cases hk : lowerName k = name
        · subst hk
          simp [Saying.about, Sayings.result, Saying.lay, Document.fields]
        · simp [Saying.about, Sayings.result, hk]
      | cons part' rest =>
        refine ⟨_, rfl, fun name => ?_⟩
        refine (hset _ name).trans ?_
        by_cases hk : lowerName k = name
        · subst hk
          simp [Saying.about, Sayings.result, Saying.lay, Document.fields]
        · simp [Saying.about, Sayings.result, hk]

/-- What is said about a table leaves a table, and what becomes of each part is what is said about
that part. -/
theorem result_table {l : Sayings} (hl : l.Tabular) (fs : Fields) :
    ∃ fs', l.result (some (.table fs)) = some (.table fs') ∧ ∀ name, Fields.get? fs' name =
      (l.about name).result (Fields.get? fs name) := by
  induction l generalizing fs with
  | nil => exact ⟨fs, rfl, fun _ => rfl⟩
  | cons a l ih =>
    obtain ⟨fs₁, hlay, hget₁⟩ := lay_table (hl a (.head _)) fs
    obtain ⟨fs', hresult, hget⟩ := ih (fun b hb => hl b (.tail _ hb)) fs₁
    refine ⟨fs', ?_, fun name => ?_⟩
    · change Sayings.result l (some (a.lay (some (.table fs)))) = _
      rw [hlay, hresult]
    · have happend : Sayings.about (a :: l) name = a.about name ++ Sayings.about l name :=
        List.flatMap_cons
      rw [hget, hget₁, happend, Sayings.result_append]

theorem result_part {l : Sayings} {fs fs' gs : Fields} {name : String}
    (hget : ∀ n, Fields.get? fs' n = (l.about n).result (Fields.get? fs n))
    (hl : (l.about name).Tabular) (hname : Fields.get? fs name = some (.table gs)) :
    ∃ gs', Fields.get? fs' name = some (.table gs') ∧ ∀ n, Fields.get? gs' n =
      ((l.about name).about n).result (Fields.get? gs n) := by
  obtain ⟨gs', hresult, hparts⟩ := result_table hl gs
  exact ⟨gs', by rw [hget, hname, hresult], hparts⟩

theorem Fields.set_ne_nil (fs : Fields) (key : String) (v : Document) : Fields.set fs key v ≠ [] := by
  cases fs with
  | nil => simp [Fields.set]
  | cons f fs =>
    simp only [Fields.set]
    split <;> simp

theorem overlayFields_ne_nil {base fs : Fields} (h : base ≠ [] ∨ fs ≠ []) :
    overlayFields base fs ≠ [] := by
  induction fs generalizing base with
  | nil => simpa [overlayFields] using h
  | cons f fs ih =>
    rw [overlayFields]
    exact ih (.inl (Fields.set_ne_nil _ _ _))

theorem put_congr {d d' : Document} (hf : d.fields = d'.fields) (hi : d.items = d'.items)
    (v : Document) (part : Part) (rest : Place) :
    put v (part :: rest) d = put v (part :: rest) d' := by
  cases part with
  | field k => cases rest <;> simp only [put, hf]
  | item i => cases rest <;> simp only [put, hi]

theorem put_ne_empty (v : Document) (part : Part) (rest : Place) (d : Document) :
    put v (part :: rest) d ≠ .table [] := by
  cases part with
  | field k => cases rest <;> simp [put, Fields.set_ne_nil]
  | item i => cases rest <;> simp [put]

/-- A document, unless it is an empty table. -/
def Document.filled? : Option Document → Option Document
  | some (.table []) => none
  | d => d

theorem Document.filled?_of_ne {d : Document} (h : d ≠ .table []) : filled? (some d) = some d := by
  cases d with
  | table fs => cases fs <;> first | rfl | exact absurd rfl h
  | null | bool | int | real | text | moment | list => rfl

structure Document.Bare (d : Document) : Prop where
  fields : d.fields = []
  items : d.items = []

namespace Saying

variable {a : Saying} {b : Document} {acc : Option Document}

/-- Over nothing, or over an empty table, a saying has the same effect as over a bare document, save
that the bare document stays when the saying is an empty table. -/
theorem lay_bare (hb : b.Bare) (hacc : acc = none ∨ acc = some (.table [])) :
    a.lay acc = .table [] ∧ a.lay (some b) = b ∨
      a.lay acc = a.lay (some b) ∧ a.lay acc ≠ .table [] := by
  obtain ⟨place, v⟩ := a
  cases place with
  | nil =>
    cases v with
    | table gs =>
      cases gs with
      | nil => exact .inl ⟨by rcases hacc with rfl | rfl <;> rfl, rfl⟩
      | cons g gs =>
        have hnone : overlay acc (.table (g :: gs)) = .table (overlayFields [] (g :: gs)) := by
          rcases hacc with rfl | rfl <;> rfl
        have hbare : overlay (some b) (.table (g :: gs)) = .table (overlayFields [] (g :: gs)) := by
          rw [overlay, Option.map_some, hb.fields, Option.getD_some]
        refine .inr ⟨hnone.trans hbare.symm, ?_⟩
        change overlay acc (.table (g :: gs)) ≠ _
        rw [hnone]
        simp [overlayFields_ne_nil]
    | null | bool | int | real | text | moment | list =>
      exact .inr ⟨rfl, by simp [lay, overlay]⟩
  | cons part rest =>
    refine .inr ⟨?_, put_ne_empty _ _ _ _⟩
    rcases hacc with rfl | rfl
    · exact put_congr (d := .null) hb.fields.symm hb.items.symm v part rest
    · exact put_congr (d := .table []) hb.fields.symm hb.items.symm v part rest

theorem lay_ne_empty {d : Document} (hd : d ≠ .table []) : a.lay (some d) ≠ .table [] := by
  obtain ⟨place, v⟩ := a
  cases place with
  | nil =>
    cases v with
    | table gs =>
      cases gs with
      | nil => exact hd
      | cons g gs => simp [lay, overlay, overlayFields_ne_nil]
    | null | bool | int | real | text | moment | list => simp [lay, overlay]
  | cons part rest => exact put_ne_empty _ _ _ _

end Saying

namespace Sayings

/-- What is said in the end, unless it is nothing or an empty table. -/
def value? (l : Sayings) : Option Document :=
  Document.filled? (l.result none)

theorem result_of_ne {l : Sayings} {d : Document} (hd : d ≠ .table []) :
    ∃ d', l.result (some d) = some d' ∧ d' ≠ .table [] := by
  induction l generalizing d with
  | nil => exact ⟨d, rfl, hd⟩
  | cons a l ih => exact ih (Saying.lay_ne_empty hd)

theorem result_bare {b : Document} (hb : b.Bare) (l : Sayings) :
    l.result (some b) = some (l.value?.getD b) := by
  -- Up to the first saying that is no empty table the bare document stays; from there on it makes no
  -- difference whether it was there.
  have hfrom : ∀ (l : Sayings) acc, acc = none ∨ acc = some (.table []) →
      l.result (some b) = some ((Document.filled? (l.result acc)).getD b) := by
    intro l
    induction l with
    | nil =>
      rintro acc (rfl | rfl) <;> rfl
    | cons a l ih =>
      intro acc hacc
      change result l (some (a.lay (some b))) = _
      have hcons : result (a :: l) acc = result l (some (a.lay acc)) := rfl
      rcases Saying.lay_bare (a := a) hb hacc with ⟨he, hb'⟩ | ⟨he, hne⟩
      · rw [hb', hcons, he]
        exact ih _ (.inr rfl)
      · obtain ⟨d, hd, hne'⟩ := result_of_ne (l := l) hne
        rw [← he, hcons, hd, Document.filled?_of_ne hne', Option.getD_some]
  exact hfrom l none (.inl rfl)

end Sayings

theorem Fields.get?_eq_none {fs : Fields} {key : String} (h : key ∉ fs.map Prod.fst) :
    Fields.get? fs key = none := by
  induction fs with
  | nil => rfl
  | cons x fs ih =>
    rw [List.map_cons, List.mem_cons, not_or] at h
    exact (if_neg (Ne.symm h.1)).trans (ih h.2)

/-- The part of a document that is found under names as they are spelled. -/
def Document.part? : List String → Document → Option Document
  | [], d => some d
  | name :: names, d => (Fields.get? d.fields name).bind (part? names)

/-- Names are in lower case, and none stands twice in one table. -/
def Document.Regular (d : Document) : Prop :=
  ∀ names e, d.part? names = some e →
    (e.fields.map Prod.fst).Nodup ∧ ∀ x ∈ e.fields, lowerName x.1 = x.1

theorem filter_name {fs : Fields} (hn : (fs.map Prod.fst).Nodup)
    (hl : ∀ x ∈ fs, lowerName x.1 = x.1) (name : String) :
    (fs.filter fun x => lowerName x.1 = name).map (fun x => (([] : Place), x.2)) =
      ((Fields.get? fs name).map fun d => ([], d)).toList := by
  induction fs with
  | nil => rfl
  | cons x fs ih =>
    obtain ⟨k, v⟩ := x
    obtain ⟨hnot, hn⟩ := List.nodup_cons.mp hn
    have hk : lowerName k = k := hl _ (.head _)
    have hrest := ih hn fun y hy => hl y (.tail _ hy)
    have hget : Fields.get? ((k, v) :: fs) name =
        if k = name then some v else Fields.get? fs name := rfl
    rw [hget]
    by_cases he : k = name
    · subst he
      rw [Fields.get?_eq_none hnot] at hrest
      rw [List.filter_cons_of_pos (by simp [hk]), if_pos rfl, List.map_cons, hrest]
      rfl
    · rw [List.filter_cons_of_neg (by simp [hk, he]), if_neg he, hrest]

theorem Document.Regular.about {d : Document} (h : d.Regular) (name : String) :
    Saying.about name ([], d) = ((Fields.get? d.fields name).map fun e => ([], e)).toList := by
  obtain ⟨hn, hl⟩ := h [] d rfl
  cases d with
  | table fs => exact filter_name hn hl name
  | null | bool | int | real | text | moment | list => rfl

theorem Document.Regular.part {d e : Document} (h : d.Regular) {name : String}
    (he : Fields.get? d.fields name = some e) : e.Regular := by
  intro names e' he'
  refine h (name :: names) e' ?_
  rw [part?, he]
  exact he'

/-- What a regular document says of a part is the part that is found there. -/
theorem Document.Regular.along {d : Document} (h : d.Regular) (names : List String) :
    Sayings.along [([], d)] names = ((d.part? names).map fun e => ([], e)).toList := by
  induction names generalizing d with
  | nil => rfl
  | cons name names ih =>
    have habout : Sayings.about [([], d)] name =
        ((Fields.get? d.fields name).map fun e => ([], e)).toList := by
      rw [← h.about name]
      exact List.flatMap_singleton _ _
    change Sayings.along (Sayings.about [([], d)] name) names = _
    rw [habout, part?]
    cases he : Fields.get? d.fields name with
    | none => exact Sayings.along_nil names
    | some e => exact ih (h.part he)

/-- A source whose keys are plain names says of each name what a table with its fields does. -/
theorem about_sayings {source : Fields} (h : ∀ x ∈ source, Place.ofKey x.1 = [.field x.1])
    (name : String) :
    (sayings source).about name = Sayings.about [([], .table source)] name := by
  induction source with
  | nil => rfl
  | cons x source ih =>
    have hrest := ih fun y hy => h y (.tail _ hy)
    have hx := h x (.head _)
    simp only [Sayings.about, sayings, List.map_cons, List.flatMap_cons, List.flatMap_nil,
      List.append_nil] at hrest ⊢
    rw [hrest, hx]
    by_cases hk : lowerName x.1 = name
    · simp [Saying.about, hk]
    · simp [Saying.about, hk]

theorem along_sayings {source : Fields} (h : ∀ x ∈ source, Place.ofKey x.1 = [.field x.1])
    (name : String) (names : List String) :
    (sayings source).along (name :: names) =
      Sayings.along [([], .table source)] (name :: names) :=
  congrArg (Sayings.along · names) (about_sayings h name)

end NodeWatch.Settings
