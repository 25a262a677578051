import NodeWatch.Builder
import NodeWatch.Proofs.AsideChanges
import NodeWatch.Proofs.RegistryEntries

/-! Which settings make a client. The check of the settings and the making of the queues draw the
line for a queue's size at the same place below, but not above: sizes that no queue can have pass
the check, and the construction breaks down on them with a word about permits. -/

namespace NodeWatch

namespace BackoffPolicy

theorem validate_eq_ok {p : BackoffPolicy} {name : String} :
    p.validate name = .ok () ↔ 0 < p.timeoutMs ∧ p.baseDelayMs ≤ p.maxDelayMs := by
  simp only [validate]
  split
  · simp
    omega
  · split
    · simp
      omega
    · simp
      omega

theorem settings_of_validate {p : BackoffPolicy} {name : String} {f : Fault}
    (h : p.validate name = .error f) : ∃ text, f = .settings text := by
  simp only [validate] at h
  split at h
  · exact ⟨_, (Except.error.inj h).symm⟩
  · split at h
    · exact ⟨_, (Except.error.inj h).symm⟩
    · cases h

end BackoffPolicy

namespace Settings

/-- What is asked of settings: time to answer a request, pauses in order, and queues with room. -/
structure Sensible (s : Settings) : Prop where
  timeout : 0 < s.resubmit.timeoutMs
  delays : s.resubmit.baseDelayMs ≤ s.resubmit.maxDelayMs
  events : 0 < s.eventQueueSize
  removals : 0 < s.backgroundQueueSize

theorem validate_eq_ok {s : Settings} : s.validate = .ok () ↔ s.Sensible := by
  simp only [validate]
  split
  · rename_i f hf
    refine iff_of_false (fun h => by cases h) fun h => ?_
    rw [BackoffPolicy.validate_eq_ok.mpr ⟨h.timeout, h.delays⟩] at hf
    cases hf
  · rename_i hok
    obtain ⟨htimeout, hdelays⟩ := BackoffPolicy.validate_eq_ok.mp hok
    split
    · rename_i he
      exact iff_of_false (fun h => by cases h) fun h => Nat.lt_irrefl 0 (he ▸ h.events)
    · rename_i he
      split
      · rename_i hb
        exact iff_of_false (fun h => by cases h) fun h => Nat.lt_irrefl 0 (hb ▸ h.removals)
      · rename_i hb
        exact iff_of_true rfl
          ⟨htimeout, hdelays, Nat.pos_of_ne_zero he, Nat.pos_of_ne_zero hb⟩

theorem settings_of_validate {s : Settings} {f : Fault} (h : s.validate = .error f) :
    ∃ text, f = .settings text := by
  simp only [validate] at h
  split at h
  · rename_i hf
    exact BackoffPolicy.settings_of_validate (Except.error.inj h ▸ hf)
  · split at h
    · exact ⟨_, (Except.error.inj h).symm⟩
    · split at h
      · exact ⟨_, (Except.error.inj h).symm⟩
      · cases h

end Settings

namespace Engine

/-- A client fit for work: it is open, both queues are empty and take as much as the settings say, the
workers run, and whatever is ordered can be begun. -/
structure Fit (settings : Settings) (feed : Option Nat) (s : Engine) : Prop where
  chosen : s.client.settings = settings
  opened : s.client.closed = false
  connected : s.client.connected = true
  empty : ∀ e, e ∉ s.client.registry
  deliveries : s.client.deliveries = ⟨settings.eventQueueSize, [], [], [], true⟩
  removals : s.client.removals = ⟨settings.backgroundQueueSize, [], [], [], true⟩
  dispatching : s.dispatching = true
  worker : s.worker = .idle
  listener : s.listener = if feed.isSome then .idle else .stopped
  begins : ∀ o, ∃ t, act (.begin o) s = some t

theorem fit_initial (settings : Settings) (feed : Option Nat) :
    (initial settings ⟨settings.eventQueueSize, [], [], [], true⟩
      ⟨settings.backgroundQueueSize, [], [], [], true⟩ feed).Fit settings feed := by
  refine ⟨rfl, rfl, rfl, fun e he => ?_, rfl, rfl, rfl, rfl, rfl, fun o => ⟨_, rfl⟩⟩
  have hnone : e.subscriber ∈ Registry.empty.holders e.path e.kind := he
  rw [Registry.holders_empty] at hnone
  cases hnone

end Engine

namespace Builder

/-- Both queues have a size that a queue can have. -/
def Feasible (b : Builder) : Prop :=
  b.settings.eventQueueSize ≤ Queue.maxCapacity ∧
    b.settings.backgroundQueueSize ≤ Queue.maxCapacity

instance (b : Builder) : Decidable b.Feasible :=
  inferInstanceAs (Decidable (_ ∧ _))

variable {b : Builder}

theorem build_of_invalid {f : Fault} (h : b.settings.validate = .error f) :
    b.build = .rejected f := by
  simp only [build, Engine.build, h]

theorem build_of_feasible (h : b.settings.validate = .ok ()) (hf : b.Feasible) :
    ∃ s, b.build = .built s ∧ s.Fit b.settings b.feed := by
  have hs := Settings.validate_eq_ok.mp h
  refine ⟨_, ?_, Engine.fit_initial b.settings b.feed⟩
  simp only [build, Engine.build, h]
  rw [Queue.ofCapacity_eq_ok.mpr ⟨hs.events, hf.1, rfl⟩]
  dsimp only
  rw [Queue.ofCapacity_eq_ok.mpr ⟨hs.removals, hf.2, rfl⟩]

/-- The queue of events is made first, but either of the queues stops the construction in the same
words. -/
theorem build_of_not_feasible (h : b.settings.validate = .ok ()) (hf : ¬b.Feasible) :
    b.build = .brokenDown
      s!"a semaphore may not have more than MAX_PERMITS permits ({Queue.maxCapacity})" := by
  have hs := Settings.validate_eq_ok.mp h
  simp only [build, Engine.build, h]
  by_cases he : b.settings.eventQueueSize ≤ Queue.maxCapacity
  · have hr : Queue.maxCapacity < b.settings.backgroundQueueSize :=
      Nat.lt_of_not_le fun hr => hf ⟨he, hr⟩
    rw [Queue.ofCapacity_eq_ok.mpr ⟨hs.events, he, rfl⟩]
    dsimp only
    rw [Queue.ofCapacity_of_greater hr]
  · rw [Queue.ofCapacity_of_greater (Nat.lt_of_not_le he)]

/-- However a client is asked for, it is refused exactly when the check of the settings finds a fault
in them, and with that fault; it comes fit for work exactly when the settings pass the check and both
queues can be made; and the construction breaks down exactly when the settings pass the check and ask
for a queue of a size that no queue can have, and then says how many permits there are. -/
theorem build_of_calls (calls : List Call) :
    ((ofCalls calls).settings.validate = .ok () ↔ (ofCalls calls).settings.Sensible) ∧
      (∀ f, (ofCalls calls).build = .rejected f ↔
        (ofCalls calls).settings.validate = .error f ∧ ∃ text, f = .settings text) ∧
      ((∃ s, (ofCalls calls).build = .built s ∧
          s.Fit (ofCalls calls).settings (ofCalls calls).feed) ↔
        (ofCalls calls).settings.validate = .ok () ∧ (ofCalls calls).Feasible) ∧
      (∀ m, (ofCalls calls).build = .brokenDown m ↔
        (ofCalls calls).settings.validate = .ok () ∧ ¬(ofCalls calls).Feasible ∧
          m = s!"a semaphore may not have more than MAX_PERMITS permits ({Queue.maxCapacity})") := by
  generalize ofCalls calls = b
  refine ⟨Settings.validate_eq_ok, ?_⟩
  cases hv : b.settings.validate with
  | error f =>
    have hb := build_of_invalid hv
    refine ⟨fun g => ⟨fun h => ?_, fun h => ?_⟩, ?_, ?_⟩
    · obtain rfl : f = g := Engine.Construction.rejected.inj (hb.symm.trans h)
      exact ⟨rfl, Settings.settings_of_validate hv⟩
    · rw [hb, Except.error.inj h.1]
    · simp [hb]
    · simp [hb]
  | ok u =>
    by_cases hf : b.Feasible
    · obtain ⟨s, hb, hfit⟩ := build_of_feasible hv hf
      refine ⟨by simp [hb], iff_of_true ⟨s, hb, hfit⟩ ⟨rfl, hf⟩, by simp [hb, hf]⟩
    · have hb := build_of_not_feasible hv hf
      exact ⟨by simp [hb], by simp [hb, hf], by simp [hb, hf, eq_comm]⟩

/-- Queues of the greatest size can be asked for. -/
theorem greatest_queues_built :
    ∃ s, (ofCalls [.sessionEvents 8, .setConfig { backgroundQueueSize := 2 ^ 61 - 1 },
        .eventQueueSize (2 ^ 61 - 1), .recoveryPolicy .dropAll]).build = .built s ∧
      s.Fit ⟨.dropAll, {}, 2 ^ 61 - 1, 2 ^ 61 - 1⟩ (some 8) :=
  (build_of_calls [.sessionEvents 8, .setConfig { backgroundQueueSize := 2 ^ 61 - 1 },
    .eventQueueSize (2 ^ 61 - 1), .recoveryPolicy .dropAll]).2.2.1.mpr
      ⟨rfl, by decide⟩

/-- A queue of one place more passes the check, and cannot be made. -/
theorem greater_queue_breaks_down :
    (ofCalls [.eventQueueSize (2 ^ 61)]).settings.validate = .ok () ∧
      (ofCalls [.eventQueueSize (2 ^ 61)]).build = .brokenDown
        "a semaphore may not have more than MAX_PERMITS permits (2305843009213693951)" ∧
      2 ^ 61 < 2 ^ 64 :=
  ⟨rfl, rfl, by decide⟩

end Builder

end NodeWatch
