import Mathlib.Tactic.ByContra
import NodeWatch.Proofs.SourceLayers
import NodeWatch.Settings.Sources

/-! Which source decides a field. Every field of the settings is read from the environment if it is
set there, else from the file if the file has it, and else it stays as it was, whatever becomes of
the other fields. -/

namespace NodeWatch.Settings

open Document (Fields layer)

/-- The fields of settings, one for each leaf. -/
inductive Field where
  | recovery
  | maxRetries
  | timeoutMs
  | baseDelayMs
  | maxDelayMs
  | eventQueueSize
  | backgroundQueueSize
  deriving DecidableEq, Repr

namespace Field

def path : Field → List String
  | recovery => ["session", "recovery"]
  | maxRetries => ["session", "resubmit", "max_retries"]
  | timeoutMs => ["session", "resubmit", "timeout_ms"]
  | baseDelayMs => ["session", "resubmit", "base_delay_ms"]
  | maxDelayMs => ["session", "resubmit", "max_delay_ms"]
  | eventQueueSize => ["dispatch", "event_queue_size"]
  | backgroundQueueSize => ["dispatch", "background_queue_size"]

/-- The key that a variable sets to set the field. -/
def key (f : Field) : String :=
  ".".intercalate f.path

def Value : Field → Type
  | recovery => RecoveryPolicy
  | maxRetries | timeoutMs | baseDelayMs | maxDelayMs | eventQueueSize | backgroundQueueSize => Nat

/-- The value that a leaf is converted to. -/
def read : (f : Field) → Document → Option f.Value
  | recovery => Reading.tolerant.policy
  | maxRetries | timeoutMs | baseDelayMs | maxDelayMs | eventQueueSize | backgroundQueueSize =>
    Reading.tolerant.number

end Field

/-- The places of the tables that the fields are in. -/
def sections : List (List String) :=
  [["session"], ["session", "resubmit"], ["dispatch"]]

def get (s : Settings) : (f : Field) → f.Value
  | .recovery => s.recovery
  | .maxRetries => s.resubmit.maxRetries
  | .timeoutMs => s.resubmit.timeoutMs
  | .baseDelayMs => s.resubmit.baseDelayMs
  | .maxDelayMs => s.resubmit.maxDelayMs
  | .eventQueueSize => s.eventQueueSize
  | .backgroundQueueSize => s.backgroundQueueSize

def ofFields (v : ∀ f : Field, f.Value) : Settings where
  recovery := v .recovery
  resubmit := ⟨v .maxRetries, v .timeoutMs, v .baseDelayMs, v .maxDelayMs⟩
  eventQueueSize := v .eventQueueSize
  backgroundQueueSize := v .backgroundQueueSize

theorem get_ofFields (v : ∀ f : Field, f.Value) (f : Field) : (ofFields v).get f = v f := by
  cases f <;> rfl

def leafOf (s : Settings) : Field → Document
  | .recovery => .text s.recovery.label
  | .maxRetries => .int s.resubmit.maxRetries
  | .timeoutMs => .int s.resubmit.timeoutMs
  | .baseDelayMs => .int s.resubmit.baseDelayMs
  | .maxDelayMs => .int s.resubmit.maxDelayMs
  | .eventQueueSize => .int s.eventQueueSize
  | .backgroundQueueSize => .int s.backgroundQueueSize

theorem bare_leafOf (s : Settings) (f : Field) : (s.leafOf f).Bare := by
  cases f <;> exact ⟨rfl, rfl⟩

theorem read_leafOf (s : Settings) (f : Field) : f.read (s.leafOf f) = some (s.get f) := by
  have hnumber : ∀ n : Nat, Reading.tolerant.number (.int n) = some n := fun n => by
    simp [Reading.tolerant]
  cases f with
  | recovery =>
    have hpolicy : ∀ p : RecoveryPolicy, Reading.tolerant.policy (.text p.label) = some p := by
      intro p
      cases p <;> decide +kernel
    exact hpolicy s.recovery
  | _ => exact hnumber _

section Leaves

variable {fs ss rs ds : Fields} (leaf : Field → Document)

theorem backoff?_eq_some (p : BackoffPolicy)
    (hretries : Fields.get? rs "max_retries" = some (leaf .maxRetries))
    (htimeout : Fields.get? rs "timeout_ms" = some (leaf .timeoutMs))
    (hbase : Fields.get? rs "base_delay_ms" = some (leaf .baseDelayMs))
    (hmax : Fields.get? rs "max_delay_ms" = some (leaf .maxDelayMs)) :
    Reading.tolerant.backoff? (.table rs) = some p ↔
      Field.read .maxRetries (leaf .maxRetries) = some p.maxRetries ∧
      Field.read .timeoutMs (leaf .timeoutMs) = some p.timeoutMs ∧
      Field.read .baseDelayMs (leaf .baseDelayMs) = some p.baseDelayMs ∧
      Field.read .maxDelayMs (leaf .maxDelayMs) = some p.maxDelayMs := by
  obtain ⟨n, t, b, d⟩ := p
  simp only [Reading.backoff?, Reading.section?, Reading.field, List.map_cons, List.map_nil, hretries,
    htimeout, hbase, hmax, Option.bind_eq_bind, Option.bind_some, Option.bind_eq_some_iff,
    Option.some.injEq, BackoffPolicy.mk.injEq, Field.read]
  constructor
  · rintro ⟨_, hn, _, ht, _, hb, _, hd, rfl, rfl, rfl, rfl⟩
    exact ⟨hn, ht, hb, hd⟩
  · rintro ⟨hn, ht, hb, hd⟩
    exact ⟨n, hn, t, ht, b, hb, d, hd, rfl, rfl, rfl, rfl⟩

theorem session?_eq_some (recovery : RecoveryPolicy) (p : BackoffPolicy)
    (hresubmit : Fields.get? ss "resubmit" = some (.table rs))
    (hrecovery : Fields.get? ss "recovery" = some (leaf .recovery)) :
    Reading.tolerant.session? (.table ss) = some (recovery, p) ↔
      Field.read .recovery (leaf .recovery) = some recovery ∧
      Reading.tolerant.backoff? (.table rs) = some p := by
  simp only [Reading.session?, Reading.section?, Reading.field, List.map_cons, List.map_nil,
    hresubmit, hrecovery, Option.bind_eq_bind, Option.bind_some, Option.bind_eq_some_iff,
    Option.some.injEq, Prod.mk.injEq, Field.read]
  constructor
  · rintro ⟨_, hr, _, hp, rfl, rfl⟩
    exact ⟨hr, hp⟩
  · rintro ⟨hr, hp⟩
    exact ⟨recovery, hr, p, hp, rfl, rfl⟩

theorem dispatch?_eq_some (m n : Nat)
    (hevents : Fields.get? ds "event_queue_size" = some (leaf .eventQueueSize))
    (hbackground : Fields.get? ds "background_queue_size" = some (leaf .backgroundQueueSize)) :
    Reading.tolerant.dispatch? (.table ds) = some (m, n) ↔
      Field.read .eventQueueSize (leaf .eventQueueSize) = some m ∧
      Field.read .backgroundQueueSize (leaf .backgroundQueueSize) = some n := by
  simp only [Reading.dispatch?, Reading.section?, Reading.field, List.map_cons, List.map_nil, hevents,
    hbackground, Option.bind_eq_bind, Option.bind_some, Option.bind_eq_some_iff, Option.some.injEq,
    Prod.mk.injEq, Field.read]
  constructor
  · rintro ⟨_, hm, _, hn, rfl, rfl⟩
    exact ⟨hm, hn⟩
  · rintro ⟨hm, hn⟩
    exact ⟨m, hm, n, hn, rfl, rfl⟩

theorem settings?_eq_some (s : Settings)
    (hsession : Fields.get? fs "session" = some (.table ss))
    (hdispatch : Fields.get? fs "dispatch" = some (.table ds)) :
    Reading.tolerant.settings? (.table fs) = some s ↔
      Reading.tolerant.session? (.table ss) = some (s.recovery, s.resubmit) ∧
      Reading.tolerant.dispatch? (.table ds) = some (s.eventQueueSize, s.backgroundQueueSize) := by
  obtain ⟨recovery, p, m, n⟩ := s
  simp only [Reading.settings?, Reading.section?, Reading.field, List.map_cons, List.map_nil, hsession,
    hdispatch, Option.bind_eq_bind, Option.bind_some, Option.bind_eq_some_iff, Option.some.injEq,
    Settings.mk.injEq]
  constructor
  · rintro ⟨⟨_, _⟩, hs, ⟨_, _⟩, hd, rfl, rfl, rfl, rfl⟩
    exact ⟨hs, hd⟩
  · rintro ⟨hs, hd⟩
    exact ⟨(recovery, p), hs, (m, n), hd, rfl, rfl, rfl, rfl⟩

/-- What becomes of settings in force when a source's sayings are laid over them is read field by
field, from what is said about the field, or else from the settings. -/
theorem settings?_of_result {l : Sayings} (hl : l.Tabular)
    (hsections : ∀ names ∈ sections, (l.along names).Tabular) (base : Settings) {d : Document}
    (hd : l.result (some base.toDocument) = some d) (s : Settings) :
    Reading.tolerant.settings? d = some s ↔ ∀ f : Field,
      f.read ((l.along f.path).value?.getD (base.leafOf f)) = some (s.get f) := by
  obtain ⟨fs, hroot, hfs⟩ := result_table hl _
  obtain rfl : d = .table fs := Option.some.inj (hd.symm.trans hroot)
  have hsessionTab : (l.about "session").Tabular := hsections ["session"] (by simp [sections])
  have hresubmitTab : ((l.about "session").about "resubmit").Tabular :=
    hsections ["session", "resubmit"] (by simp [sections])
  have hdispatchTab : (l.about "dispatch").Tabular := hsections ["dispatch"] (by simp [sections])
  obtain ⟨ss, hsession, hss⟩ := result_part hfs hsessionTab rfl
  obtain ⟨rs, hresubmit, hrs⟩ := result_part hss hresubmitTab rfl
  obtain ⟨ds, hdispatch, hds⟩ := result_part hfs hdispatchTab rfl
  have hleaf : ∀ (l : Sayings) (f : Field), l.result (some (base.leafOf f)) =
      some (l.value?.getD (base.leafOf f)) := fun l f => Sayings.result_bare (base.bare_leafOf f) l
  let leaf : Field → Document := fun f => (l.along f.path).value?.getD (base.leafOf f)
  rw [settings?_eq_some s hsession hdispatch,
    session?_eq_some leaf s.recovery s.resubmit hresubmit
      ((hss "recovery").trans (hleaf _ .recovery)),
    backoff?_eq_some leaf s.resubmit ((hrs "max_retries").trans (hleaf _ .maxRetries))
      ((hrs "timeout_ms").trans (hleaf _ .timeoutMs))
      ((hrs "base_delay_ms").trans (hleaf _ .baseDelayMs))
      ((hrs "max_delay_ms").trans (hleaf _ .maxDelayMs)),
    dispatch?_eq_some leaf s.eventQueueSize s.backgroundQueueSize
      ((hds "event_queue_size").trans (hleaf _ .eventQueueSize))
      ((hds "background_queue_size").trans (hleaf _ .backgroundQueueSize))]
  refine ⟨fun ⟨⟨h₁, h₂, h₃, h₄, h₅⟩, h₆, h₇⟩ f => ?_, fun h => ⟨⟨h .recovery, h .maxRetries,
    h .timeoutMs, h .baseDelayMs, h .maxDelayMs⟩, h .eventQueueSize, h .backgroundQueueSize⟩⟩
  cases f with
  | recovery => exact h₁
  | maxRetries => exact h₂
  | timeoutMs => exact h₃
  | baseDelayMs => exact h₄
  | maxDelayMs => exact h₅
  | eventQueueSize => exact h₆
  | backgroundQueueSize => exact h₇

end Leaves

namespace Field

theorem key_injective {f g : Field} (h : f.key = g.key) : f = g := by
  cases f <;> cases g <;> first | rfl | exact absurd h (by decide +kernel)

theorem ofKey_key (f : Field) : Place.ofKey f.key = f.path.map .field := by
  cases f <;> decide +kernel

theorem lowerName_path (f : Field) : ∀ name ∈ f.path, lowerName name = name := by
  cases f <;> decide +kernel

/-- The way to a section leads on to a field, or else neither way is part of the other. -/
theorem path_of_section (f : Field) : ∀ names ∈ sections,
    (names <+: f.path ∧ names ≠ f.path) ∨ ¬names <+: f.path ∧ ¬f.path <+: names := by
  cases f <;> decide

theorem path_apart {f g : Field} (h : f ≠ g) : ¬f.path <+: g.path := by
  cases f <;> cases g <;> first | exact absurd rfl h | decide

end Field

/-- A saying about one field speaks of each place on the way to it. -/
theorem along_toward {names path : List String} (hp : ∀ n ∈ path, lowerName n = n)
    (h : names <+: path) (d : Document) :
    Sayings.along [(path.map .field, d)] names = [((path.drop names.length).map .field, d)] := by
  induction names generalizing path with
  | nil => rfl
  | cons name names ih =>
    obtain ⟨rest, rfl⟩ := h
    have habout : Sayings.about [((name :: names ++ rest).map .field, d)] name =
        [((names ++ rest).map .field, d)] := by
      simp [Sayings.about, Saying.about, hp name (by simp)]
    have hrest : ∀ n ∈ names ++ rest, lowerName n = n := fun n hn => hp n (.tail _ hn)
    change Sayings.along (Sayings.about _ name) names = _
    rw [habout]
    exact ih hrest (List.prefix_append names rest)

theorem along_off {names path : List String} (hp : ∀ n ∈ path, lowerName n = n)
    (h : ¬names <+: path) (h' : ¬path <+: names) (d : Document) :
    Sayings.along [(path.map .field, d)] names = [] := by
  induction names generalizing path with
  | nil => exact absurd (List.nil_prefix) h
  | cons name names ih =>
    cases path with
    | nil => exact absurd List.nil_prefix h'
    | cons n path =>
      have hn := hp n (.head _)
      by_cases he : n = name
      · subst he
        have habout : Sayings.about [((n :: path).map .field, d)] n = [(path.map .field, d)] := by
          simp [Sayings.about, Saying.about, hn]
        change Sayings.along (Sayings.about _ n) names = _
        rw [habout]
        exact ih (fun m hm => hp m (.tail _ hm))
          (fun hpre => h (List.cons_prefix_cons.mpr ⟨rfl, hpre⟩))
          fun hpre => h' (List.cons_prefix_cons.mpr ⟨rfl, hpre⟩)
      · have habout : Sayings.about [((n :: path).map .field, d)] name = [] := by
          simp [Sayings.about, Saying.about, hn, he]
        change Sayings.along (Sayings.about _ name) names = _
        rw [habout]
        exact Sayings.along_nil names

theorem along_field (f g : Field) (d : Document) :
    Sayings.along [(.ofKey g.key, d)] f.path = if g = f then [([], d)] else [] := by
  rw [g.ofKey_key]
  by_cases h : g = f
  · subst h
    rw [along_toward g.lowerName_path (List.prefix_refl _), if_pos rfl, List.drop_length]
    rfl
  · rw [along_off g.lowerName_path (Field.path_apart (Ne.symm h)) (Field.path_apart h), if_neg h]

theorem tabular_along_section (g : Field) (d : Document) {names : List String}
    (h : names ∈ sections) : (Sayings.along [(.ofKey g.key, d)] names).Tabular := by
  rw [g.ofKey_key]
  rcases g.path_of_section names h with ⟨hpre, hne⟩ | ⟨hpre, hpre'⟩
  · rw [along_toward g.lowerName_path hpre]
    obtain ⟨rest, he⟩ := hpre
    cases rest with
    | nil => exact absurd (by simpa using he) hne
    | cons name rest =>
      intro a ha
      rw [List.mem_singleton.mp ha, ← he, List.drop_left]
      trivial
  · rw [along_off g.lowerName_path hpre hpre']
    exact fun a ha => absurd ha List.not_mem_nil

/-- A document that takes the place of whatever it is laid over. -/
structure Document.Solid (d : Document) : Prop where
  overlay : ∀ acc, Document.overlay acc d = d
  ne_empty : d ≠ .table []

theorem Sayings.value?_concat {l : Sayings} {d : Document} (h : d.Solid) :
    value? (l ++ [([], d)]) = some d := by
  have hresult : result (l ++ [([], d)]) none = some d := by
    rw [result_append]
    exact congrArg some (h.overlay _)
  rw [value?, hresult, Document.filled?_of_ne h.ne_empty]

/-- A source of solid leaves, each set by the key of a field, and none twice. -/
structure Leaves (fs : Fields) : Prop where
  named : ∀ x ∈ fs, ∃ f : Field, x.1 = f.key
  solid : ∀ x ∈ fs, x.2.Solid
  once : (fs.map Prod.fst).Nodup

theorem Leaves.tail {x : String × Document} {fs : Fields} (h : Leaves (x :: fs)) : Leaves fs :=
  ⟨fun y hy => h.named y (.tail _ hy), fun y hy => h.solid y (.tail _ hy),
    (List.nodup_cons.mp h.once).2⟩

theorem Leaves.along {fs : Fields} (h : Leaves fs) (f : Field) :
    (sayings fs).along f.path = ((Fields.get? fs f.key).map fun d => ([], d)).toList := by
  induction fs with
  | nil => exact Sayings.along_nil f.path
  | cons x fs ih =>
    obtain ⟨k, d⟩ := x
    obtain ⟨g, rfl⟩ : ∃ g : Field, k = g.key := h.named _ (.head _)
    have hcons : sayings ((g.key, d) :: fs) = [(.ofKey g.key, d)] ++ sayings fs := rfl
    have hget : Fields.get? ((g.key, d) :: fs) f.key =
        if g.key = f.key then some d else Fields.get? fs f.key := rfl
    rw [hcons, Sayings.along_append, along_field, ih h.tail, hget]
    by_cases hg : g = f
    · subst hg
      rw [if_pos rfl, if_pos rfl, Fields.get?_eq_none (List.nodup_cons.mp h.once).1]
      rfl
    · rw [if_neg hg, if_neg fun he => hg (Field.key_injective he)]
      rfl

theorem Leaves.tabular {fs : Fields} (h : Leaves fs) {names : List String} (hn : names ∈ sections) :
    ((sayings fs).along names).Tabular := by
  induction fs with
  | nil =>
    rw [show sayings [] = [] from rfl, Sayings.along_nil]
    exact fun a ha => absurd ha List.not_mem_nil
  | cons x fs ih =>
    obtain ⟨k, d⟩ := x
    obtain ⟨g, rfl⟩ : ∃ g : Field, k = g.key := h.named _ (.head _)
    have hcons : sayings ((g.key, d) :: fs) = [(.ofKey g.key, d)] ++ sayings fs := rfl
    rw [hcons, Sayings.along_append]
    exact fun a ha => (List.mem_append.mp ha).elim (tabular_along_section g d hn a) (ih h.tail a)

namespace Environment

theorem solid_leaf (v : String) : (leaf v).Solid := by
  unfold leaf
  split
  · exact ⟨fun _ => rfl, by simp⟩
  · split
    · exact ⟨fun _ => rfl, by simp⟩
    · split
      · exact ⟨fun _ => rfl, by simp⟩
      · split <;> exact ⟨fun _ => rfl, by simp⟩

/-- Every variable that sets something sets a field, and none is set by two. -/
structure Orderly (env : Environment) : Prop where
  named : ∀ v ∈ env, ∀ k, key? v.1 = some k → ∃ f : Field, k = f.key
  once : (env.filterMap fun v => key? v.1).Nodup

/-- The leaf that a field is set to by a variable that is not empty. -/
def value? (env : Environment) (f : Field) : Option Document :=
  (env.find? fun v => key? v.1 = some f.key ∧ v.2.isEmpty = false).map fun v => leaf v.2

def addField (fs : Fields) (v : String × String) : Fields :=
  match key? v.1 with
  | some k => if v.2.isEmpty then fs else Fields.set fs k (leaf v.2)
  | none => fs

variable {env : Environment}

theorem fields_eq (env : Environment) : env.fields = env.foldl addField [] :=
  rfl

theorem mem_set {fs : Fields} {key : String} {d : Document} {x : String × Document}
    (h : x ∈ Fields.set fs key d) : x = (key, d) ∨ x ∈ fs := by
  induction fs with
  | nil => exact .inl (List.mem_singleton.mp h)
  | cons y fs ih =>
    simp only [Fields.set] at h
    split at h
    · exact (List.mem_cons.mp h).imp id (.tail _)
    · rcases List.mem_cons.mp h with rfl | h
      · exact .inr (.head _)
      · exact (ih h).imp id (.tail _)

theorem nodup_set {fs : Fields} (h : (fs.map Prod.fst).Nodup) (key : String) (d : Document) :
    ((Fields.set fs key d).map Prod.fst).Nodup := by
  induction fs with
  | nil => simp [Fields.set]
  | cons y fs ih =>
    obtain ⟨hnot, hnd⟩ := List.nodup_cons.mp h
    simp only [Fields.set]
    split
    · rename_i he
      subst he
      exact h
    · rename_i hne
      refine List.nodup_cons.mpr ⟨fun hm => ?_, ih hnd⟩
      obtain ⟨x, hx, he⟩ := List.mem_map.mp hm
      rcases mem_set hx with rfl | hx
      · exact hne he.symm
      · exact hnot (he ▸ List.mem_map_of_mem hx)

theorem leaves_addField {fs : Fields} (h : Leaves fs) {v : String × String}
    (hv : ∀ k, key? v.1 = some k → ∃ f : Field, k = f.key) : Leaves (addField fs v) := by
  unfold Environment.addField
  split
  · rename_i k hk
    split
    · exact h
    · obtain ⟨f, rfl⟩ := hv k hk
      refine ⟨fun x hx => ?_, fun x hx => ?_, nodup_set h.once _ _⟩
      · rcases mem_set hx with rfl | hx
        · exact ⟨f, rfl⟩
        · exact h.named x hx
      · rcases mem_set hx with rfl | hx
        · exact solid_leaf v.2
        · exact h.solid x hx
  · exact h

theorem Orderly.leaves (h : env.Orderly) : Leaves env.fields :=
  List.foldlRecOn (motive := Leaves) env addField ⟨by simp, by simp, by simp⟩
    fun _ hfs v hv => leaves_addField hfs (h.named v hv)

theorem Orderly.tail {v : String × String} (h : Orderly (v :: env)) : env.Orderly := by
  refine ⟨fun u hu => h.named u (.tail _ hu), ?_⟩
  have honce := h.once
  rw [List.filterMap_cons] at honce
  split at honce
  · exact honce
  · exact (List.nodup_cons.mp honce).2

theorem value?_cons (v : String × String) (f : Field) :
    value? (v :: env) f = if key? v.1 = some f.key ∧ v.2.isEmpty = false then some (leaf v.2)
      else value? env f := by
  by_cases hv : key? v.1 = some f.key ∧ v.2.isEmpty = false
  · rw [if_pos hv, value?, List.find?_cons_of_pos (by simpa using hv)]
    rfl
  · rw [if_neg hv, value?, List.find?_cons_of_neg (by simpa using hv)]
    rfl

theorem Orderly.value?_eq_none {v : String × String} {f : Field} (h : Orderly (v :: env))
    (hv : key? v.1 = some f.key) : value? env f = none := by
  have honce := h.once
  rw [List.filterMap_cons, hv] at honce
  have hnot := (List.nodup_cons.mp honce).1
  rw [value?, Option.map_eq_none_iff, List.find?_eq_none]
  intro u hu hu'
  exact hnot (List.mem_filterMap.mpr ⟨u, hu, (of_decide_eq_true hu').1⟩)

theorem Orderly.get?_foldl (h : env.Orderly) (f : Field) (acc : Fields) :
    Fields.get? (env.foldl addField acc) f.key = (env.value? f).or (Fields.get? acc f.key) := by
  induction env generalizing acc with
  | nil => rfl
  | cons v env ih =>
    rw [List.foldl_cons, ih h.tail, value?_cons]
    unfold addField
    cases hk : key? v.1 with
    | none => simp
    | some k =>
      cases he : v.2.isEmpty with
      | true => simp
      | false =>
        simp only [Bool.false_eq_true, if_false, Option.some.injEq, and_true]
        rw [Fields.get?_set]
        by_cases hkf : k = f.key
        · rw [if_pos hkf, if_pos hkf, h.value?_eq_none (hk.trans (congrArg some hkf))]
          rfl
        · rw [if_neg hkf, if_neg hkf]

theorem Orderly.along_fields (h : env.Orderly) (f : Field) :
    (sayings env.fields).along f.path = ((env.value? f).map fun d => ([], d)).toList := by
  have hget := h.get?_foldl f []
  rw [h.leaves.along f, fields_eq, hget]
  cases env.value? f <;> rfl

theorem solid_value? {f : Field} {d : Document} (h : env.value? f = some d) : d.Solid := by
  obtain ⟨v, _, rfl⟩ := Option.map_eq_some_iff.mp h
  exact solid_leaf v.2

end Environment

/-- What a file has for a field. -/
def stated? (file : Fields) (f : Field) : Option Document :=
  ((sayings file).along f.path).result none

/-- In a file without peculiar names it is what stands in its place there. -/
theorem stated?_of_regular {file : Fields} (hr : Document.Regular (.table file))
    (hkeys : ∀ x ∈ file, Place.ofKey x.1 = [.field x.1]) (f : Field) :
    stated? file f = (Document.part? f.path (.table file)).map (Document.overlay none) := by
  have halong : (sayings file).along f.path = Sayings.along [([], .table file)] f.path := by
    cases f <;> exact along_sayings hkeys _ _
  rw [stated?, halong, hr.along]
  cases Document.part? f.path (.table file) <;> rfl

/-- What a file has for a field, unless it is an empty table. -/
def fileValue? (file : Fields) (f : Field) : Option Document :=
  Document.filled? (stated? file f)

/-- The tables that the fields are in are tables wherever the file speaks of them. -/
def Sectioned (file : Fields) : Prop :=
  ∀ names ∈ sections, ((sayings file).along names).Tabular

instance : DecidablePred Sectioned := fun file =>
  inferInstanceAs (Decidable (∀ names ∈ sections, ((sayings file).along names).Tabular))

/-- The value of a field by the order of precedence; none when what was chosen cannot be converted. -/
def resolve? (base : Settings) (file : Fields) (env : Environment) (f : Field) : Option f.Value :=
  match env.value? f with
  | some d => f.read d
  | none => match fileValue? file f with
    | some d => f.read d
    | none => some (base.get f)

/-- Settings that came out as each field on its own would, and nothing where a field does not. -/
structure FieldWise (result : Option Settings) (base : Settings) (file : Fields)
    (env : Environment) : Prop where
  some_iff : ∀ s, result = some s ↔ ∀ f, resolve? base file env f = some (s.get f)
  none_iff : result = none ↔ ∃ f, resolve? base file env f = none

theorem resolve?_eq (base : Settings) (file : Fields) {env : Environment} (h : env.Orderly)
    (f : Field) :
    resolve? base file env f = f.read ((((sayings file ++ sayings env.fields).along f.path).value?).getD
      (base.leafOf f)) := by
  rw [Sayings.along_append, h.along_fields, resolve?]
  cases he : env.value? f with
  | some d =>
    have hvalue := Sayings.value?_concat (l := (sayings file).along f.path)
      (Environment.solid_value? he)
    change f.read d = f.read ((Sayings.value? ((sayings file).along f.path ++ [([], d)])).getD _)
    rw [hvalue]
    rfl
  | none =>
    change _ = f.read ((Sayings.value? ((sayings file).along f.path ++ [])).getD _)
    have hvalue : fileValue? file f = Sayings.value? ((sayings file).along f.path) := rfl
    rw [List.append_nil, hvalue]
    cases Sayings.value? ((sayings file).along f.path) with
    | some d => rfl
    | none => exact (base.read_leafOf f).symm

theorem fieldWise_override {base : Settings} {file : Fields} {env : Environment}
    (hb : base.storable = true) (hf : Sectioned file) (he : env.Orderly) :
    FieldWise (override? base file env) base file env := by
  have hlayers : (sayings file ++ sayings env.fields).result (some base.toDocument) =
      some ((base.toDocument.layer file).layer env.fields) := by
    rw [Sayings.result_append, result_sayings, result_sayings]
  have htab : (sayings file ++ sayings env.fields).Tabular := fun a ha =>
    (List.mem_append.mp ha).elim (tabular_sayings file a) (tabular_sayings env.fields a)
  have hsections : ∀ names ∈ sections, ((sayings file ++ sayings env.fields).along names).Tabular := by
    intro names hn a ha
    rw [Sayings.along_append] at ha
    exact (List.mem_append.mp ha).elim (hf names hn a) (he.leaves.tabular hn a)
  have hsome : ∀ s, override? base file env = some s ↔
      ∀ f, resolve? base file env f = some (s.get f) := by
    intro s
    simp only [resolve?_eq base file he]
    rw [override?, if_pos hb]
    exact settings?_of_result htab hsections base hlayers s
  refine ⟨hsome, fun h => ?_, fun ⟨f, hnone⟩ => ?_⟩
  · -- If every field had a value, settings with these values would have come out.
    by_contra hall
    have hread : ∀ f, (resolve? base file env f).isSome := fun f =>
      Option.isSome_iff_ne_none.mpr fun hn => hall ⟨f, hn⟩
    have hs := (hsome (ofFields fun f => (resolve? base file env f).get (hread f))).mpr fun f => by
      rw [get_ofFields, Option.some_get]
    rw [h] at hs
    cases hs
  · cases hr : override? base file env with
    | none => rfl
    | some s =>
      rw [(hsome s).mp hr f] at hnone
      cases hnone

/-- What a layering comes to stands when it is laid under the same layers again. -/
theorem FieldWise.again {result result' : Option Settings} {base s : Settings} {file : Fields}
    {env : Environment} (h : FieldWise result base file env) (h' : FieldWise result' s file env)
    (hs : result = some s) : result' = some s := by
  refine (h'.some_iff s).mpr fun f => ?_
  have hf := (h.some_iff s).mp hs f
  simp only [resolve?] at hf ⊢
  split
  · rename_i he
    rwa [he] at hf
  · rename_i he
    rw [he] at hf
    split
    · rename_i hv
      dsimp only at hf
      rwa [hv] at hf
    · rfl

/-- The fields of the file that the environment names, if it names one. -/
def namedFile? (dir : Directory) (env : Environment) : Option Fields :=
  match env.lookup Environment.fileVariable with
  | some path => file? dir path
  | none => some []

theorem reload?_eq {dir : Directory} {path : String} {file : Fields}
    (h : file? dir path = some file) (base : Settings) (env : Environment) :
    reload? base dir path env = override? base file env := by
  rw [reload?, h, Option.bind_some]

theorem load?_eq {dir : Directory} {env : Environment} {file : Fields}
    (h : namedFile? dir env = some file) : load? dir env = override? {} file env := by
  unfold namedFile? at h
  unfold load?
  cases hl : env.lookup Environment.fileVariable with
  | none =>
    rw [hl] at h
    obtain rfl : [] = file := Option.some.inj h
    rfl
  | some path =>
    rw [hl] at h
    have hfile : file? dir path = some file := h
    change (file? dir path).bind (override? {} · env) = _
    rw [hfile, Option.bind_some]

/-- Settings come out of a file and an environment field by field, whether they are laid over settings
in force or, when the environment names the file, over the defaults: the environment comes before the
file, and the file before what was there, and nothing comes out exactly if the value chosen for a field
cannot be converted. The same file and environment change nothing a second time. What a file without
peculiar names has for a field is what stands in its place there. -/
theorem sources_fieldWise (dir : Directory) {env : Environment} (he : env.Orderly) :
    (∀ base path file, base.storable = true → file? dir path = some file → Sectioned file →
      FieldWise (reload? base dir path env) base file env ∧
        ∀ s, reload? base dir path env = some s → s.storable = true →
          reload? s dir path env = some s) ∧
      (∀ file, namedFile? dir env = some file → Sectioned file →
        FieldWise (load? dir env) {} file env ∧
          ∀ path s, env.lookup Environment.fileVariable = some path → load? dir env = some s →
            s.storable = true → reload? s dir path env = some s) ∧
      ∀ file, Document.Regular (.table file) → (∀ x ∈ file, Place.ofKey x.1 = [.field x.1]) →
        ∀ f, stated? file f =
          (Document.part? f.path (.table file)).map (Document.overlay none) := by
  refine ⟨fun base path file hb hfile hs => ?_, fun file hfile hs => ?_,
    fun _ hr hkeys => stated?_of_regular hr hkeys⟩
  · rw [reload?_eq hfile]
    have hfields := fieldWise_override hb hs he
    refine ⟨hfields, fun s hr hst => ?_⟩
    rw [reload?_eq hfile]
    exact hfields.again (fieldWise_override hst hs he) hr
  · have hdefault : ({} : Settings).storable = true := by decide
    rw [load?_eq hfile]
    have hfields := fieldWise_override hdefault hs he
    refine ⟨hfields, fun path s hpath hr hst => ?_⟩
    have hfile' : file? dir path = some file := by
      rw [namedFile?, hpath] at hfile
      exact hfile
    rw [reload?_eq hfile']
    exact hfields.again (fieldWise_override hst hs he) hr

/-- The environment decides one field, the file another, and an empty variable none. -/
theorem three_sources_fieldWise :
    ∃ dir env file, Environment.Orderly env ∧ namedFile? dir env = some file ∧ Sectioned file ∧
      load? dir env = some { recovery := .dropAll, eventQueueSize := 9 } ∧
      FieldWise (load? dir env) {} file env ∧
      FieldWise (reload? { backgroundQueueSize := 5 } dir "watch" env) { backgroundQueueSize := 5 }
        file env ∧
      reload? { recovery := .dropAll, eventQueueSize := 9 } dir "watch" env =
        some { recovery := .dropAll, eventQueueSize := 9 } := by
  let dir : Directory :=
    [("watch.toml", "[session]\nrecovery = \"drop_all\"\n[dispatch]\nevent_queue_size = 7\n")]
  let env : Environment :=
    [("WATCH_CONFIG_PATH", "watch"), ("WATCH__DISPATCH__EVENT_QUEUE_SIZE", "9"),
      ("watch__session__resubmit__timeout_ms", "")]
  have hnamed : (namedFile? dir env).any (fun file => decide (Sectioned file)) = true := by
    decide +kernel
  obtain ⟨file, hfile, hs⟩ := (Option.any_eq_true _ _).mp hnamed
  have hkeys : env.map (fun v => Environment.key? v.1) =
      [none, some Field.eventQueueSize.key, some Field.timeoutMs.key] := by
    decide +kernel
  have henv : Environment.Orderly env := by
    refine ⟨fun v hv k hk => ?_, by decide +kernel⟩
    have hmem : some k ∈ env.map fun v => Environment.key? v.1 := hk ▸ List.mem_map_of_mem hv
    rw [hkeys] at hmem
    simp only [List.mem_cons, reduceCtorEq, Option.some.injEq, List.not_mem_nil, or_false,
      false_or] at hmem
    exact hmem.elim (⟨_, ·⟩) (⟨_, ·⟩)
  have hloaded : load? dir env = some { recovery := .dropAll, eventQueueSize := 9 } := by
    decide +kernel
  obtain ⟨hover, hnew, _⟩ := sources_fieldWise dir henv
  obtain ⟨hfields, hagain⟩ := hnew file hfile (of_decide_eq_true hs)
  exact ⟨dir, env, file, henv, hfile, of_decide_eq_true hs, hloaded, hfields,
    (hover _ "watch" file (by decide) hfile (of_decide_eq_true hs)).1,
    hagain "watch" _ rfl hloaded (by decide)⟩

/-- An empty table in a field's place cannot be converted, and yet the field stays as it was. -/
theorem empty_table_keeps_base :
    ∃ file d,
      file? [("watch.toml", "[dispatch]\nevent_queue_size = \x7b\x7d\n")] "watch.toml" =
        some file ∧
      Sectioned file ∧ stated? file .eventQueueSize = some d ∧
      Field.read .eventQueueSize d = none ∧ Environment.Orderly [] ∧
      ({} : Settings).storable = true ∧
      reload? {} [("watch.toml", "[dispatch]\nevent_queue_size = \x7b\x7d\n")] "watch.toml" [] =
        some {} := by
  have hread : (file? [("watch.toml", "[dispatch]\nevent_queue_size = \x7b\x7d\n")] "watch.toml").any
      (fun file => decide (Sectioned file) && (stated? file .eventQueueSize).any
        (fun d => (Field.read .eventQueueSize d).isNone)) = true := by
    decide +kernel
  obtain ⟨file, hfile, hs⟩ := (Option.any_eq_true _ _).mp hread
  obtain ⟨hs, hstated⟩ := Bool.and_eq_true_iff.mp hs
  obtain ⟨d, hd, hnone⟩ := (Option.any_eq_true _ _).mp hstated
  exact ⟨file, d, hfile, of_decide_eq_true hs, hd, Option.isNone_iff_eq_none.mp hnone,
    ⟨by simp, by simp⟩, by decide, by decide +kernel⟩

end NodeWatch.Settings
