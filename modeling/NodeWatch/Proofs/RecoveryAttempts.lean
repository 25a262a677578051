import NodeWatch.Proofs.SpotAgreement
import NodeWatch.Proofs.ExpiryRun

/-! The tasks of a recovery beside one another. Each goes by the replies it gets itself, from the
moment at which all of them are started, in the order of their paths and kinds. -/

namespace NodeWatch

open Session (Spot Task)

namespace ExpiryRun

variable {w : ExpiryRun} {i j : Nat} {r : Backoff.Reply} {e : Engine} {policy : BackoffPolicy}
  {start : Nat} {κs : List Spot} {asked : List Request} {ts : List Task} {t : Task}

theorem times_submit (w : ExpiryRun) (i j : Nat) (e : Engine) :
    (w.submit i e).times j = if j = i then w.times i ++ [w.now] else w.times j := by
  by_cases h : j = i
  · subst h
    simp [times, submit]
  · simp [times, submit, h, Ne.symm h]

theorem times_hear (w : ExpiryRun) (i j : Nat) (r : Backoff.Reply) (e : Engine) :
    (w.hear i r e).times j = w.times j :=
  rfl

/-- What there is to say of the tasks of a recovery: what they asked, which of them are started, how
their past is told by their replies, and that none is late. -/
structure Trying (policy : BackoffPolicy) (start : Nat) (κs : List Spot) (w : ExpiryRun)
    (asked : List Request) (ts : List Task) : Prop where
  spots : ts.map Task.spot = κs
  asked : asked.map some = w.attempts.map fun x => κs[x.slot]?.map Spot.request
  firsts : ∃ m ≤ κs.length, w.attempts.filter (·.number = 1) =
      (List.range m).map (⟨·, 1, start⟩) ∧
    ∀ i t, ts[i]? = some t → (Backoff.isUnstarted t.stage = true ↔ m ≤ i)
  foretold : ∀ i t, ts[i]? = some t →
    Backoff.Foretold policy start (w.times i) (w.replies i) (w.changed i) t.stage
  urgent : (∃ t ∈ ts, Backoff.isUnstarted t.stage = true) → w.now = start
  inTime : ∀ i t, ts[i]? = some t → ∀ l,
    (Backoff.wait? policy t.spot.request t.stage).bind Wait.limit? = some l →
      w.now ≤ w.changed i + l

theorem trying_unstarted (κs : List Spot) (hattempts : w.attempts = [])
    (hreplies : ∀ i, w.replies i = []) :
    Trying policy w.now κs w [] (κs.map (Task.mk · .unstarted)) := by
  have hstage : ∀ (i : Nat) (t : Task), (κs.map (Task.mk · .unstarted))[i]? = some t →
      t.stage = .unstarted := by
    intro i t ht
    obtain ⟨κ, _, rfl⟩ := List.mem_map.mp (List.mem_of_getElem? ht)
    rfl
  refine ⟨by simp [Function.comp_def], by simp [hattempts],
    ⟨0, Nat.zero_le _, by simp [hattempts], fun i t ht => by simp [hstage i t ht, Backoff.isUnstarted]⟩,
    fun i t ht => ?_, fun _ => rfl, fun i t ht l hl => ?_⟩
  · rw [hstage i t ht]
    exact ⟨by simp [times, hattempts], hreplies i⟩
  · rw [hstage i t ht] at hl
    cases hl

theorem getElem?_set_task {ts : List Task} {i j : Nat} {t u : Task} {b : Backoff.Stage}
    (ht : ts[i]? = some t) (hu : (ts.set i { t with stage := b })[j]? = some u) :
    j = i ∧ u = { t with stage := b } ∨ j ≠ i ∧ ts[j]? = some u := by
  by_cases hj : j = i
  · subst hj
    rw [List.getElem?_set_self (List.getElem?_eq_some_iff.mp ht).1] at hu
    exact .inl ⟨rfl, (Option.some.inj hu).symm⟩
  · rw [List.getElem?_set_ne (Ne.symm hj)] at hu
    exact .inr ⟨hj, hu⟩

/-- A task makes an attempt, its first when those before it have made theirs. -/
theorem Trying.submit (h : Trying policy start κs w asked ts) (ht : ts[i]? = some t)
    {n d : Nat}
    (hfirst : Backoff.isUnstarted t.stage = true →
      ∀ j u, j < i → ts[j]? = some u → Backoff.isUnstarted u.stage = false)
    (hagain : Backoff.isUnstarted t.stage = false → w.times i ≠ [])
    (hfore : Backoff.Foretold policy start (w.times i ++ [w.now]) (w.replies i) w.now
      (.trying n d)) (e : Engine) :
    Trying policy start κs (w.submit i e) (asked ++ [t.spot.request])
      (ts.set i { t with stage := .trying n d }) := by
  have hslot : κs[i]? = some t.spot := by rw [← h.spots, List.getElem?_map, ht]; rfl
  obtain ⟨m, hm, hfirsts, hunstarted⟩ := h.firsts
  refine ⟨by rw [Session.map_spot_set ht, h.spots], ?_, ?_, fun j u hu => ?_, ?_,
    fun j u hu l hl => ?_⟩
  · simp [h.asked, ExpiryRun.submit, hslot]
  · by_cases hu : Backoff.isUnstarted t.stage = true
    · -- The first attempt of task `m`, the next in order.
      have hmi : m = i := by
        refine le_antisymm ((hunstarted i t ht).mp hu) (Nat.le_of_not_lt fun hlt => ?_)
        obtain ⟨u, hm'⟩ : ∃ u, ts[m]? = some u := by
          refine ⟨_, List.getElem?_eq_getElem (lt_trans hlt (List.getElem?_eq_some_iff.mp ht).1)⟩
        have hnot := hfirst hu m u hlt hm'
        rw [(hunstarted m u hm').mpr le_rfl] at hnot
        cases hnot
      subst hmi
      have hstage : t.stage = .unstarted := by
        cases hs : t.stage <;> simp_all [Backoff.isUnstarted]
      have hold := h.foretold m t ht
      rw [hstage] at hold
      have hnow := h.urgent ⟨t, List.mem_of_getElem? ht, hu⟩
      refine ⟨m + 1, (List.getElem?_eq_some_iff.mp hslot).1, ?_, fun j u hu' => ?_⟩
      · simp [ExpiryRun.submit, hold.1, hnow, hfirsts, List.range_succ]
      · rcases getElem?_set_task ht hu' with ⟨rfl, rfl⟩ | ⟨hj, hu'⟩
        · simp [Backoff.isUnstarted]
        · rw [hunstarted j u hu']
          omega
    · have hu' : Backoff.isUnstarted t.stage = false := by simpa using hu
      have hnumber : (w.times i).length ≠ 0 := by simpa using hagain hu'
      refine ⟨m, hm, ?_, fun j u hu'' => ?_⟩
      · simp [ExpiryRun.submit, hfirsts, hnumber]
      · rcases getElem?_set_task ht hu'' with ⟨rfl, rfl⟩ | ⟨hj, hu''⟩
        · rw [← hunstarted j t ht, hu']
          simp [Backoff.isUnstarted]
        · exact hunstarted j u hu''
  · rw [times_submit]
    rcases getElem?_set_task ht hu with ⟨rfl, rfl⟩ | ⟨hj, hu⟩
    · simpa [ExpiryRun.submit] using hfore
    · simpa [ExpiryRun.submit, hj] using h.foretold j u hu
  · rintro ⟨u, hmem, hu⟩
    rcases List.mem_or_eq_of_mem_set hmem with hmem | rfl
    · exact h.urgent ⟨u, hmem, hu⟩
    · cases hu
  · rcases getElem?_set_task ht hu with ⟨rfl, rfl⟩ | ⟨hj, hu⟩
    · simp [ExpiryRun.submit]
    · simpa [ExpiryRun.submit, hj] using h.inTime j u hu l hl

/-- A task hears of its attempt. -/
theorem Trying.hear (h : Trying policy start κs w asked ts) (ht : ts[i]? = some t)
    (hstarted : Backoff.isUnstarted t.stage = false) {b : Backoff.Stage}
    (hb : Backoff.isUnstarted b = false)
    (hfore : Backoff.Foretold policy start (w.times i) (w.replies i ++ [r]) w.now b) (e : Engine) :
    Trying policy start κs (w.hear i r e) asked (ts.set i { t with stage := b }) := by
  obtain ⟨m, hm, hfirsts, hunstarted⟩ := h.firsts
  refine ⟨by rw [Session.map_spot_set ht, h.spots], h.asked, ⟨m, hm, hfirsts, fun j u hu => ?_⟩,
    fun j u hu => ?_, ?_, fun j u hu l hl => ?_⟩
  · rcases getElem?_set_task ht hu with ⟨rfl, rfl⟩ | ⟨hj, hu⟩
    · rw [← hunstarted j t ht, hstarted, hb]
    · exact hunstarted j u hu
  · rw [times_hear]
    rcases getElem?_set_task ht hu with ⟨rfl, rfl⟩ | ⟨hj, hu⟩
    · simpa [ExpiryRun.hear] using hfore
    · simpa [ExpiryRun.hear, hj] using h.foretold j u hu
  · rintro ⟨u, hmem, hu⟩
    rcases List.mem_or_eq_of_mem_set hmem with hmem | rfl
    · exact h.urgent ⟨u, hmem, hu⟩
    · rw [hb] at hu
      cases hu
  · rcases getElem?_set_task ht hu with ⟨rfl, rfl⟩ | ⟨hj, hu⟩
    · simp [ExpiryRun.hear]
    · simpa [ExpiryRun.hear, hj] using h.inTime j u hu l hl

/-- What came of the tasks when all have ended. -/
structure Tried (policy : BackoffPolicy) (start : Nat) (κs : List Spot) (w : ExpiryRun)
    (asked : List Request) (results : List (Spot × Answer)) : Prop where
  spots : results.map Prod.fst = κs
  asked : asked.map some = w.attempts.map fun x => κs[x.slot]?.map Spot.request
  firsts : w.attempts.filter (·.number = 1) = (List.range κs.length).map (⟨·, 1, start⟩)
  foretold : ∀ i κ result, results[i]? = some (κ, result) →
    Backoff.forecast policy start (w.replies i) = ⟨w.times i, some (w.changed i, result)⟩

theorem Trying.tried {results : List (Spot × Answer)}
    (h : Trying policy start κs w asked ts) (hr : Session.results? ts = some results) :
    Tried policy start κs w asked results := by
  obtain rfl := Session.results?_eq_some hr
  have hspots : results.map Prod.fst = κs := by rw [← h.spots, List.map_map]; rfl
  obtain ⟨m, hm, hfirsts, hunstarted⟩ := h.firsts
  have hall : m = κs.length := by
    refine le_antisymm hm (Nat.le_of_not_lt fun hlt => ?_)
    rw [← hspots, List.length_map] at hlt
    have hget : (results.map fun x => (⟨x.1, .ended x.2⟩ : Task))[m]? =
        some ⟨results[m].1, .ended results[m].2⟩ := by simp [hlt]
    have hu := (hunstarted m _ hget).mpr le_rfl
    cases hu
  refine ⟨hspots, h.asked, by rw [hfirsts, hall], fun i κ result hi => ?_⟩
  exact h.foretold i ⟨κ, .ended result⟩ (by rw [List.getElem?_map, hi]; rfl)

end ExpiryRun

namespace Session

/-- The task to start next is the first that is not started. -/
theorem startNext_at (policy : BackoffPolicy) {ts : List Task} {i : Nat} (c : Client)
    (h : ts.findIdx? (Backoff.isUnstarted ·.stage) = some i) :
    ∃ t, ts[i]? = some t ∧ Backoff.isUnstarted t.stage = true ∧
      (∀ j u, j < i → ts[j]? = some u → Backoff.isUnstarted u.stage = false) ∧
      startNext policy ts c = some (ts.set i { t with stage := .trying 1 policy.baseDelayMs },
        c.submit t.spot.request) := by
  induction ts generalizing i with
  | nil => cases h
  | cons t ts ih =>
    rw [List.findIdx?_cons] at h
    by_cases hu : Backoff.isUnstarted t.stage = true
    · rw [if_pos hu] at h
      obtain rfl := Option.some.inj h
      refine ⟨t, rfl, hu, by simp, ?_⟩
      simp [startNext, hu, Backoff.start]
    · rw [if_neg hu] at h
      obtain ⟨k, hk, rfl⟩ := Option.map_eq_some_iff.mp h
      obtain ⟨u, hget, hu', hbefore, hstart⟩ := ih hk
      refine ⟨u, hget, hu', fun j v hj hv => ?_, ?_⟩
      · cases j with
        | zero =>
          obtain rfl := Option.some.inj hv
          simpa using hu
        | succ j => exact hbefore j v (by omega) hv
      · simp [startNext, hu, hstart]

end Session

end NodeWatch
