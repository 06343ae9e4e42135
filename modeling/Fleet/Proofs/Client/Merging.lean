import Fleet.Proofs.Client.Waiting
import Fleet.Proofs.Record.Attempts
import Fleet.Proofs.Record.Retagging

/-!
# Merging the tags of a stored instance

A client that works alone gives a stored instance the tags that it lacks, and loses none that it has: with one ordered
conflict the second request takes effect, and with more none does (`setTags_merges`). Every request for a change bears
the fingerprint that is stored at its moment (`Echoes`). The runs of the parts are computed one after the other; what
they leave in the record is put together by `World.Leads.trans`.
-/

namespace Fleet

open Memory

/-! ### Fingerprints that are stored -/

/-- Every change that is asked for is one of the tags of the instance, and bears the fingerprint that is stored at its
moment. The platform has been in the state `m` before the exchanges `es`, the latest of which comes first. -/
def Echoes (zone : Scope) (name : String) (m : Memory) (es : List (Exchange Cloud)) : Prop :=
  ∀ later e earlier, es = later ++ e :: earlier → e.query.isMutation = true →
    ∃ tags m' i, e.query = .setTags .instance zone name tags ∧ Served m earlier m' ∧
      m'.find? .instance zone name = some (.instance i) ∧ tags.fingerprint = i.tags.fingerprint

section Echoes

variable {zone : Scope} {name : String} {m m' : Memory} {es es' : List (Exchange Cloud)}

theorem Echoes.append (h : Echoes zone name m es) (hs : Served m es m') (h' : Echoes zone name m' es') :
    Echoes zone name m (es' ++ es) := by
  intro later e earlier heq hq
  rcases List.append_eq_append_iff.1 heq with ⟨between, rfl, hes⟩ | ⟨between, hes', hes⟩
  · exact h between e earlier hes hq
  · cases between with
    | nil => exact h [] e earlier hes.symm hq
    | cons e' between =>
      obtain ⟨rfl, rfl⟩ := List.cons.inj hes
      obtain ⟨tags, s, i, htags, hserved, hi⟩ := h' later e between hes' hq
      exact ⟨tags, s, i, htags, hs.append hserved, hi⟩

end Echoes

/-- From `w` to `w'` nothing has come from outside, and `updates` changes have been asked for, each of which echoes the
stored fingerprint of the instance. -/
structure World.Leads (zone : Scope) (name : String) (w : World Cloud Memory) (updates : Nat) (w' : World Cloud Memory) :
    Prop where
  exchanges : ∃ es, w'.record = es ++ w.record ∧ Served w.service es w'.service ∧ Echoes zone name w.service es ∧
    (es.filter fun e => e.query.isMutation).length = updates
  interventions : w'.interventions = []

namespace World.Leads

variable {zone : Scope} {name : String} {w w' w'' : World Cloud Memory} {n n' : Nat}

theorem trans (h : w.Leads zone name n w') (h' : w'.Leads zone name n' w'') : w.Leads zone name (n + n') w'' := by
  obtain ⟨es, hrecord, hserved, hechoes, hcount⟩ := h.exchanges
  obtain ⟨es', hrecord', hserved', hechoes', hcount'⟩ := h'.exchanges
  refine ⟨⟨es' ++ es, by rw [hrecord', hrecord, List.append_assoc], hserved.append hserved',
    hechoes.append hserved hechoes', ?_⟩, h'.interventions⟩
  rw [List.filter_append, List.length_append, hcount, hcount', Nat.add_comm]

/-- One question is asked, and when it is a change, it is one of the tags and bears the stored fingerprint. -/
private theorem ask (hw : w.interventions = []) (q : Call)
    (hq : q.isMutation = true → ∃ tags i, q = .setTags .instance zone name tags ∧
      w.service.find? .instance zone name = some (.instance i) ∧ tags.fingerprint = i.tags.fingerprint) :
    w.Leads zone name (if q.isMutation then 1 else 0) (w.ask q).2 := by
  have hserved : Served w.service [⟨w.now, q, (w.ask q).1⟩] (w.ask q).2.service :=
    @Served.cons Cloud Memory _ w.service [] w.service .nil w.now q
  refine ⟨⟨[⟨w.now, q, (w.ask q).1⟩], rfl, hserved, fun later e earlier heq he => ?_, ?_⟩, hw⟩
  · obtain ⟨rfl, rfl, rfl⟩ : later = [] ∧ e = ⟨w.now, q, (w.ask q).1⟩ ∧ earlier = [] := by
      cases later with
      | nil => simpa using heq.symm
      | cons e' later => simp at heq
    obtain ⟨tags, i, htags, hi, hf⟩ := hq he
    exact ⟨tags, w.service, i, htags, .nil, hi, hf⟩
  · cases hmutation : q.isMutation <;> simp [hmutation]

theorem read (hw : w.interventions = []) {q : Call} (hq : q.isMutation = false) :
    w.Leads zone name 0 (w.ask q).2 := by
  have h : w.Leads zone name (if q.isMutation then 1 else 0) (w.ask q).2 := ask hw q fun hm => by simp [hq] at hm
  rwa [hq] at h

theorem update (hw : w.interventions = []) {i : Instance} {tags : Tags}
    (hi : w.service.find? .instance zone name = some (.instance i)) (hf : tags.fingerprint = i.tags.fingerprint) :
    w.Leads zone name 1 (w.ask (.setTags .instance zone name tags)).2 :=
  ask hw (.setTags .instance zone name tags) fun _ => ⟨tags, i, rfl, hi, hf⟩

theorem sleep (hw : w.interventions = []) (ms : Nat) : w.Leads zone name 0 (w.advanceTo (w.now + ms)) := by
  have hstill : (w.advanceTo (w.now + ms)).service = w.service := by simp [World.advanceTo, World.intervene, hw]
  refine ⟨⟨[], rfl, hstill ▸ .nil, fun later e earlier heq _ => by simp at heq, rfl⟩, ?_⟩
  simp [World.advanceTo, World.intervene, hw]

end World.Leads

/-! ### Single requests -/

namespace Client

variable {σ : Type} [Service Cloud σ]

/-- A call that gets through is made once. -/
theorem run_send (c : Client) (call : Call) (w : World Cloud σ)
    (hreached : ∀ text, (w.ask call).1 ≠ .error (.transport text)) : (c.send call).run.run w = w.ask call := by
  have hrun := c.retry.run_retry (Action.call call).run w c.retry.limit_pos (fun i hi => absurd hi (Nat.not_lt_zero i))
    (.inr hreached)
  exact hrun.trans (Prod.ext (RetryPolicy.concluded_of_reached hreached) rfl)

theorem run_fetch (c : Client) (kind : Kind) (scope : Scope) (name : String) (w : World Cloud Memory) :
    (c.fetch kind scope name).run.run w =
      (reading kind name (.ok (w.service.find? kind scope name)), (w.ask (.get kind scope name)).2) := by
  have hsend : (c.send (.get kind scope name)).run.run w =
      (.ok (w.service.find? kind scope name), (w.ask (.get kind scope name)).2) :=
    c.run_send (.get kind scope name) w fun text => nofun
  unfold fetch fetch?
  rw [Action.run_bind, Action.run_bind_of_ok hsend]
  rcases w.service.find? kind scope name with _ | r
  · rfl
  · simp only [reading]
    cases Resource.ofKind? kind r with
    | error f => rfl
    | ok a => rfl

theorem run_snapshot (c : Client) {h : OperationHandle} {w : World Cloud Memory} {o : Operation}
    (ho : (answer (.operation h) w.service).1 = .ok o) :
    (c.snapshot h).run.run w = (.ok o, (w.ask (.operation h)).2) := by
  have hask : (w.ask (.operation h)).1 = .ok o := ho
  have hsend : (c.send (.operation h)).run.run w = (.ok o, (w.ask (.operation h)).2) := by
    rw [c.run_send (.operation h) w fun text => by rw [hask]; exact nofun, ← hask]
  unfold snapshot
  refine (Program.run_bind ..).trans ?_
  rw [hsend]
  rfl

end Client

/-! ### Waiting -/

section Waiting

variable (zone : Scope) (name : String) (c : Client) {h : OperationHandle} {plan : Except OperationError Effect}
  {w : World Cloud Memory}

/-- One poll of an operation that has been asked for `k` times: it goes on, or its plan is carried out. -/
private theorem poll_cases {k : Nat} (hw : w.interventions = []) (hfetches : w.service.failingFetches = 0)
    (hr : ∃ r, w.service.operations.find? h.name = some r ∧ Awaits r k plan) :
    ∃ o w', (c.snapshot h).run.run w = (.ok o, w') ∧ w.Leads zone name 0 w' ∧ w'.now = w.now ∧
      ((o.isDone = false ∧ k + 1 < w.service.pollsUntilDone ∧ w.service.Quiet w'.service ∧
          ∃ r, w'.service.operations.find? h.name = some r ∧ Awaits r (k + 1) plan) ∨
        (o.isDone = true ∧ (w.service.perform plan).2.Quiet w'.service ∧
          o.primaryError? = error? (w.service.perform plan).1)) := by
  obtain ⟨r, hfind, hawaits⟩ := hr
  rcases w.service.answer_operation h with ⟨hlost, -⟩ | ⟨-, hnone, -⟩ | ⟨-, r', hfind', hcases⟩
  · omega
  · exact nomatch hfind.symm.trans hnone
  · obtain rfl : r = r' := Option.some.inj (hfind.symm.trans hfind')
    rcases hcases k plan hawaits with ⟨hk, hquiet, o, r', hans, hrunning, hnext⟩ | ⟨-, hquiet, o, hans, hdone, herror⟩
    · exact ⟨o, _, c.run_snapshot hans, .read hw rfl, rfl, .inl ⟨hrunning, hk, hquiet, r', hnext⟩⟩
    · exact ⟨o, _, c.run_snapshot hans, .read hw rfl, rfl, .inr ⟨hdone, hquiet, herror⟩⟩

private theorem run_awaitFrom_of_done {started deadline fuel k : Nat} {o : Operation} {w' : World Cloud Memory}
    (hsnapshot : (c.snapshot h).run.run w = (.ok o, w')) (hdone : o.isDone = true) :
    (c.awaitFrom h started deadline fuel k).run.run w = (Client.settled h o, w') := by
  cases fuel with
  | zero | succ =>
    unfold Client.awaitFrom
    rw [Action.run_bind_of_ok hsnapshot, if_pos hdone]
    rfl

/-- A patient client waits until the plan is carried out, in a state that differs from `w` in records only. -/
private theorem run_awaitFrom {started fuel k : Nat} (hw : w.interventions = [])
    (hfetches : w.service.failingFetches = 0)
    (hr : ∃ r, w.service.operations.find? h.name = some r ∧ Awaits r k plan)
    (hp : c.poll.Patient w.service.pollsUntilDone) (hnow : w.now = started + c.poll.pollTime k)
    (hfuel : fuel + k = Client.pollLimit c.poll.timeoutMs) :
    ∃ o w' m, (c.awaitFrom h started (started + c.poll.timeoutMs) fuel k).run.run w = (Client.settled h o, w') ∧
      w.Leads zone name 0 w' ∧ w.service.Quiet m ∧ (m.perform plan).2.Quiet w'.service ∧
      o.primaryError? = error? (m.perform plan).1 := by
  induction fuel generalizing k w with
  | zero =>
    obtain ⟨o, w', hsnapshot, hleads, -, ⟨-, hk, -⟩ | ⟨hdone, hquiet, herror⟩⟩ :=
      poll_cases zone name c hw hfetches hr
    · -- The fuel lasts for more polls than there can be.
      have := hp.1
      unfold Client.pollLimit at hfuel
      omega
    · exact ⟨o, w', w.service, run_awaitFrom_of_done c hsnapshot hdone, hleads, .refl _, hquiet, herror⟩
  | succ fuel ih =>
    obtain ⟨o, w', hsnapshot, hleads, htime, ⟨hrunning, hk, hquiet, hr'⟩ | ⟨hdone, hquiet, herror⟩⟩ :=
      poll_cases zone name c hw hfetches hr
    · have hearly : c.poll.pollTime k < c.poll.timeoutMs := hp.2 k hk
      have hnow' : w'.now = started + c.poll.pollTime k := htime.trans hnow
      let ms := min (c.poll.intervalMs k) (started + c.poll.timeoutMs - w'.now)
      have hsleep : w'.Leads zone name 0 (w'.advanceTo (w'.now + ms)) := .sleep hleads.interventions ms
      have hstill : (w'.advanceTo (w'.now + ms)).service = w'.service := by
        simp [World.advanceTo, World.intervene, hleads.interventions]
      have hlater : (w'.advanceTo (w'.now + ms)).now = started + c.poll.pollTime (k + 1) := by
        show max w'.now (w'.now + ms) = _
        rw [PollPolicy.pollTime]
        omega
      obtain ⟨o', w'', m, hrun, hleads', hquiet', hperformed, herror⟩ := ih hsleep.interventions
        (by rw [hstill]; have := hquiet.fetches; omega) (by rw [hstill]; exact hr')
        (by rw [hstill, hquiet.polls]; exact hp) hlater (by omega)
      refine ⟨o', w'', m, ?_, (hleads.trans hsleep).trans hleads', hquiet.trans (hstill ▸ hquiet'), hperformed, herror⟩
      unfold Client.awaitFrom
      rw [Action.run_bind_of_ok hsnapshot, if_neg (by simp [hrunning])]
      show (if started + c.poll.timeoutMs ≤ w'.now then _ else _ : Action Summary).run.run w' = _
      rw [if_neg (by omega)]
      exact hrun
    · exact ⟨o, w', w.service, run_awaitFrom_of_done c hsnapshot hdone, hleads, .refl _, hquiet, herror⟩

-- The fuel is a large number that must not be computed with, so it is a variable here.
private theorem run_clock {fuel : Nat} (hw : w.interventions = []) (hfetches : w.service.failingFetches = 0)
    (hr : ∃ r, w.service.operations.find? h.name = some r ∧ Awaits r 0 plan)
    (hp : c.poll.Patient w.service.pollsUntilDone) (hfuel : fuel = Client.pollLimit c.poll.timeoutMs) :
    ∃ o w' m, (Program.clock fun started =>
        (c.awaitFrom h started (started + c.poll.timeoutMs) fuel 0).run).run w = (Client.settled h o, w') ∧
      w.Leads zone name 0 w' ∧ w.service.Quiet m ∧ (m.perform plan).2.Quiet w'.service ∧
      o.primaryError? = error? (m.perform plan).1 :=
  run_awaitFrom zone name c hw hfetches hr hp rfl hfuel

private theorem run_awaitDone (hw : w.interventions = []) (hfetches : w.service.failingFetches = 0)
    (hr : ∃ r, w.service.operations.find? h.name = some r ∧ Awaits r 0 plan)
    (hp : c.poll.Patient w.service.pollsUntilDone) :
    ∃ o w' m, (c.awaitDone h).run.run w = (Client.settled h o, w') ∧ w.Leads zone name 0 w' ∧ w.service.Quiet m ∧
      (m.perform plan).2.Quiet w'.service ∧ o.primaryError? = error? (m.perform plan).1 := by
  rw [c.run_awaitDone]
  exact run_clock zone name c hw hfetches hr hp rfl

end Waiting

/-! ### Changes of tags -/

namespace Memory

/-- An instance is stored, and nothing is ordered that keeps its operations from being carried out. -/
structure Taggable (zone : Scope) (name : String) (i : Instance) (m : Memory) : Prop where
  stored : m.find? .instance zone name = some (.instance i)
  fetches : m.failingFetches = 0
  scripted : m.scriptedFailures.find? i.name = none

/-- The instance is stored as `i`, and every other resource as before. -/
def Swaps (zone : Scope) (name : String) (i : Instance) (m m' : Memory) : Prop :=
  ∀ k, m'.resources.find? k = if k = resourceKey .instance zone name then some (.instance i) else m.resources.find? k

variable {zone : Scope} {name : String} {i j : Instance} {m m' m'' : Memory}

theorem Swaps.trans (h : m.Swaps zone name i m') (h' : m'.Swaps zone name j m'') : m.Swaps zone name j m'' := by
  intro k
  rw [h' k]
  split
  · rfl
  · next hk => rw [h k, if_neg hk]

theorem Swaps.stored (h : m.Swaps zone name i m') : m'.find? .instance zone name = some (.instance i) :=
  (h _).trans (if_pos rfl)

theorem Swaps.of_quiet {s s' : Memory} (h : m.Swaps zone name i m') (hs : s.Quiet m) (hs' : m'.Quiet s') :
    s.Swaps zone name i s' := by
  intro k
  rw [hs'.resources, h k, hs.resources]

/-- An ordered conflict gives the instance another fingerprint, and changes nothing else. -/
private theorem answer_setTags_of_conflict (h : m.Taggable zone name i) (hk : 0 < m.tagConflicts) (tags : Tags) :
    ∃ fingerprint m', answer (.setTags .instance zone name tags) m = (.error staleFingerprint, m') ∧
      m.Swaps zone name { i with tags := ⟨i.tags.items, some fingerprint⟩ } m' ∧ m'.applied = m.applied ∧
      m'.tagConflicts = m.tagConflicts - 1 ∧ m'.pollsUntilDone = m.pollsUntilDone ∧
      m'.Taggable zone name { i with tags := ⟨i.tags.items, some fingerprint⟩ } := by
  let m₁ := { m.journal (.setTags name tags.items tags.fingerprint) with tagConflicts := m.tagConflicts - 1 }
  have hstored : (m.journal (.setTags name tags.items tags.fingerprint)).resources.find?
      (resourceKey .instance zone name) = some (.instance i) := h.stored
  have hans : answer (.setTags .instance zone name tags) m =
      (.error staleFingerprint, m₁.refingerprint (resourceKey .instance zone name) i) := by
    show m.setTags .instance zone name tags = _
    unfold setTags
    simp only [hstored]
    exact if_pos hk
  have hswaps : m.Swaps zone name { i with tags := ⟨i.tags.items, some m₁.newFingerprint.1⟩ }
      (m₁.refingerprint (resourceKey .instance zone name) i) := fun k => OrderedMap.find?_insert ..
  exact ⟨_, _, hans, hswaps, rfl, rfl, rfl, hswaps.stored, h.fetches, h.scripted⟩

/-- Tags that echo the stored fingerprint are accepted, when no conflict is ordered. -/
private theorem answer_setTags_of_echo (h : m.Taggable zone name i) (hk : m.tagConflicts = 0) {tags : Tags}
    (hf : tags.fingerprint = i.tags.fingerprint) :
    ∃ o, (answer (.setTags .instance zone name tags) m).1 = .ok o ∧
      m.Quiet (answer (.setTags .instance zone name tags) m).2 ∧
      ∃ r, (answer (.setTags .instance zone name tags) m).2.operations.find? o.name = some r ∧
        Awaits r 0 (.ok (.setTags (resourceKey .instance zone name) tags.items)) := by
  have hsame {j : Instance} (hj : m.resources.find? (resourceKey .instance zone name) = some (.instance j)) : j = i :=
    Resource.instance.inj (Option.some.inj (hj.symm.trans h.stored))
  rcases m.answer_setTags .instance zone name tags with
    ⟨hnone, -⟩ | ⟨j, hj, -, ⟨hpos, -⟩ | ⟨-, hne, -⟩⟩ | ⟨j, o, hj, hans, hs⟩
  · exact absurd h.stored (hnone i)
  · omega
  · exact absurd (hsame hj ▸ hf) hne
  · obtain rfl := hsame hj
    have hunscripted : m.scriptedFailures.find? (Resource.instance j).summary.name = none := h.scripted
    have hr := hs.record
    rw [planFor, hunscripted] at hr
    exact ⟨o, hans, hs.quiet, hr⟩

/-- The planned change of the tags of a stored instance takes effect. -/
private theorem perform_setTags (hi : m.find? .instance zone name = some (.instance i)) (items : List String) :
    ∃ fingerprint m', m.perform (.ok (.setTags (resourceKey .instance zone name) items)) = (.ok (), m') ∧
      m.Swaps zone name { i with tags := ⟨items, some fingerprint⟩ } m' ∧
      m'.applied = m.applied ++ [.setTags name items (some fingerprint)] := by
  rcases m.apply_setTags (resourceKey .instance zone name) items with ⟨j, hj, happly⟩ | ⟨hnone, -⟩
  · obtain rfl : j = i := Resource.instance.inj (Option.some.inj (hj.symm.trans hi))
    exact ⟨_, _, happly, fun k => OrderedMap.find?_insert .., rfl⟩
  · exact absurd hi (hnone i)

end Memory

section Attempts

variable {zone : Scope} {name : String} {i : Instance} (c : Client) {w : World Cloud Memory} {wanted : List String}

private theorem run_fetch_stored (hi : w.service.find? .instance zone name = some (.instance i)) :
    (c.fetch .instance zone name).run.run w = (.ok i, (w.ask (.get .instance zone name)).2) := by
  rw [c.run_fetch, hi]
  rfl

private theorem run_update_of_conflict (h : w.service.Taggable zone name i) (hk : 0 < w.service.tagConflicts)
    (tags : Tags) : (c.update .instance zone name tags).run.run w =
      (.error staleFingerprint, (w.ask (.setTags .instance zone name tags)).2) := by
  obtain ⟨fingerprint, m', hans, -⟩ := answer_setTags_of_conflict h hk tags
  have hask : (w.ask (.setTags .instance zone name tags)).1 = .error staleFingerprint := congrArg Prod.fst hans
  unfold Client.update
  rw [Action.run_bind, c.run_send _ w fun text => by rw [hask]; simp [staleFingerprint]]
  generalize w.ask (.setTags .instance zone name tags) = p at hask
  obtain ⟨r, w'⟩ := p
  obtain rfl : r = .error staleFingerprint := hask
  rfl

/-- Tags that echo the stored fingerprint replace the stored ones, when no conflict is ordered. -/
private theorem run_update_of_echo (tags : Tags) (hw : w.interventions = []) (h : w.service.Taggable zone name i)
    (hk : w.service.tagConflicts = 0) (hp : c.poll.Patient w.service.pollsUntilDone)
    (hf : tags.fingerprint = i.tags.fingerprint) :
    ∃ v w' fingerprint, (c.update .instance zone name tags).run.run w = (.ok v, w') ∧ w.Leads zone name 1 w' ∧
      w.service.Swaps zone name { i with tags := ⟨tags.items, some fingerprint⟩ } w'.service ∧
      w'.service.applied = w.service.applied ++ [.setTags name tags.items (some fingerprint)] := by
  obtain ⟨o, hans, hquiet, hr⟩ := answer_setTags_of_echo h hk hf
  have hask : (w.ask (.setTags .instance zone name tags)).1 = .ok o := hans
  have hsend : (c.send (.setTags .instance zone name tags)).run.run w =
      (.ok o, (w.ask (.setTags .instance zone name tags)).2) := by
    rw [c.run_send _ w fun text => by rw [hask]; simp, ← hask]
  have hquiet : w.service.Quiet (w.ask (.setTags .instance zone name tags)).2.service := hquiet
  have hr : ∃ r, (w.ask (.setTags .instance zone name tags)).2.service.operations.find? o.name = some r ∧
      Awaits r 0 (.ok (.setTags (resourceKey .instance zone name) tags.items)) := hr
  have hleads : w.Leads zone name 1 (w.ask (.setTags .instance zone name tags)).2 := .update hw h.stored hf
  generalize (w.ask (.setTags .instance zone name tags)).2 = w₁ at hsend hquiet hr hleads
  have hfetches : w₁.service.failingFetches = 0 := Nat.le_zero.1 (h.fetches ▸ hquiet.fetches)
  -- Until the operation is done, nothing but records changes.
  obtain ⟨x, w₂, m, hwait, hleads', hquiet', hdone, herror⟩ := run_awaitDone zone name c hleads.interventions
    hfetches hr (hquiet.polls ▸ hp)
  have hbefore : w.service.Quiet m := hquiet.trans hquiet'
  have hstored : m.find? .instance zone name = some (.instance i) :=
    (congrArg (·.find? (resourceKey .instance zone name)) hbefore.resources).trans h.stored
  obtain ⟨fingerprint, m', hperform, hswaps, happlied⟩ := perform_setTags hstored tags.items
  rw [hperform] at hdone herror
  have herrors : x.errors = [] := List.head?_eq_none_iff.1 herror
  refine ⟨o.target, w₂, fingerprint, ?_, hleads.trans hleads', hswaps.of_quiet hbefore hdone, ?_⟩
  · unfold Client.update
    rw [Action.run_bind_of_ok hsend, hwait, Client.settled_eq_ok_iff.2 ⟨herrors, rfl⟩]
  · rw [hdone.applied, happlied, hbefore.applied]

/-- Nothing is asked for when no tag is lacking. -/
private theorem run_setTagsOnce_of_present (hi : w.service.find? .instance zone name = some (.instance i))
    (hall : i.tags.containsAll wanted = true) : (c.setTagsOnce zone name wanted).run.run w =
      (.ok (.inl i), (w.ask (.get .instance zone name)).2) := by
  unfold Client.setTagsOnce
  rw [Action.run_bind_of_ok (run_fetch_stored c hi), if_pos hall]
  rfl

private theorem run_setTagsOnce_of_conflict (hw : w.interventions = []) (h : w.service.Taggable zone name i)
    (hlacking : ¬ i.tags.containsAll wanted = true) (hk : 0 < w.service.tagConflicts) :
    ∃ fingerprint w', (c.setTagsOnce zone name wanted).run.run w = (.ok (.inr staleFingerprint), w') ∧
      w.Leads zone name 1 w' ∧
      w.service.Swaps zone name { i with tags := ⟨i.tags.items, some fingerprint⟩ } w'.service ∧
      w'.service.applied = w.service.applied ∧ w'.service.tagConflicts = w.service.tagConflicts - 1 ∧
      w'.service.pollsUntilDone = w.service.pollsUntilDone ∧
      w'.service.Taggable zone name { i with tags := ⟨i.tags.items, some fingerprint⟩ } := by
  have hread : w.Leads zone name 0 (w.ask (.get .instance zone name)).2 := .read hw rfl
  have h₁ : (w.ask (.get .instance zone name)).2.service.Taggable zone name i := ⟨h.stored, h.fetches, h.scripted⟩
  let tags : Tags := ⟨Tags.merged i.tags.items wanted, i.tags.fingerprint⟩
  obtain ⟨fingerprint, m', hans, hrest⟩ := answer_setTags_of_conflict h₁ hk tags
  have hservice : ((w.ask (.get .instance zone name)).2.ask (.setTags .instance zone name tags)).2.service = m' :=
    congrArg Prod.snd hans
  have hupdate := run_update_of_conflict c h₁ hk tags
  have hsent : World.Leads zone name _ 1
      ((w.ask (.get .instance zone name)).2.ask (.setTags .instance zone name tags)).2 :=
    .update hread.interventions h₁.stored rfl
  refine ⟨fingerprint, _, ?_, hread.trans hsent, ?_⟩
  · unfold Client.setTagsOnce
    rw [Action.run_bind_of_ok (run_fetch_stored c h.stored), if_neg hlacking, Action.run_bind, Action.run_outcome,
      hupdate]
    rfl
  · rw [hservice]
    exact hrest

private theorem run_setTagsOnce_of_echo (hw : w.interventions = []) (h : w.service.Taggable zone name i)
    (hlacking : ¬ i.tags.containsAll wanted = true) (hk : w.service.tagConflicts = 0)
    (hp : c.poll.Patient w.service.pollsUntilDone) :
    ∃ fingerprint w', (c.setTagsOnce zone name wanted).run.run w =
        (.ok (.inl { i with tags := ⟨Tags.merged i.tags.items wanted, some fingerprint⟩ }), w') ∧
      w.Leads zone name 1 w' ∧
      w.service.Swaps zone name { i with tags := ⟨Tags.merged i.tags.items wanted, some fingerprint⟩ } w'.service ∧
      w'.service.applied =
        w.service.applied ++ [.setTags name (Tags.merged i.tags.items wanted) (some fingerprint)] := by
  have hread : w.Leads zone name 0 (w.ask (.get .instance zone name)).2 := .read hw rfl
  have h₁ : (w.ask (.get .instance zone name)).2.service.Taggable zone name i := ⟨h.stored, h.fetches, h.scripted⟩
  let tags : Tags := ⟨Tags.merged i.tags.items wanted, i.tags.fingerprint⟩
  obtain ⟨v, w₁, fingerprint, hupdate, hleads, hswaps, happlied⟩ :=
    run_update_of_echo c tags hread.interventions h₁ hk hp rfl
  have hread' : w₁.Leads zone name 0 (w₁.ask (.get .instance zone name)).2 := .read hleads.interventions rfl
  refine ⟨fingerprint, (w₁.ask (.get .instance zone name)).2, ?_, (hread.trans hleads).trans hread', hswaps, happlied⟩
  unfold Client.setTagsOnce
  rw [Action.run_bind_of_ok (run_fetch_stored c h.stored), if_neg hlacking, Action.run_bind, Action.run_outcome, hupdate]
  show (c.fetch .instance zone name >>= fun j => pure (.inl j) : Action (Instance ⊕ Failure)).run.run w₁ = _
  rw [Action.run_bind_of_ok (run_fetch_stored c hswaps.stored)]
  rfl

/-! ### The whole call -/

private theorem run_setTags_of_inl {w' : World Cloud Memory}
    (h : (c.setTagsOnce zone name wanted).run.run w = (.ok (.inl i), w')) :
    (c.setTags zone name wanted).run.run w = (.ok i, w') := by
  unfold Client.setTags
  rw [Action.run_bind_of_ok h]
  rfl

private theorem run_setTags_of_inr {f : Failure} {w' : World Cloud Memory}
    (h : (c.setTagsOnce zone name wanted).run.run w = (.ok (.inr f), w')) :
    (∀ j w'', (c.setTagsOnce zone name wanted).run.run w' = (.ok (.inl j), w'') →
      (c.setTags zone name wanted).run.run w = (.ok j, w'')) ∧
    ∀ f' w'', (c.setTagsOnce zone name wanted).run.run w' = (.ok (.inr f'), w'') →
      (c.setTags zone name wanted).run.run w = (.error (.conflict name f'.message), w'') := by
  unfold Client.setTags
  refine ⟨fun j w'' h' => ?_, fun f' w'' h' => ?_⟩
  · rw [Action.run_bind_of_ok h, Action.run_bind_of_ok h']
    rfl
  · rw [Action.run_bind_of_ok h, Action.run_bind_of_ok h']
    rfl

/-- A client gives a stored instance the tags that it lacks, each once and in the order in which they are wanted first,
and loses none that it has. With one ordered conflict the second request takes effect; with more, both requests fail
and all tags stay. -/
theorem setTags_merges (wanted : List String) (hw : w.interventions = [])
    (hi : w.service.find? .instance zone name = some (.instance i)) (hfetches : w.service.failingFetches = 0)
    (hscripted : w.service.scriptedFailures.find? i.name = none) (hp : c.poll.Patient w.service.pollsUntilDone) :
    ∃ r w', (c.setTags zone name wanted).run.run w = (r, w') ∧
      ((∀ t ∈ wanted, t ∈ i.tags.items) → r = .ok i ∧ w.Leads zone name 0 w' ∧
        w'.service.resources = w.service.resources ∧ w'.service.applied = w.service.applied) ∧
      ((∃ t ∈ wanted, t ∉ i.tags.items) → w.service.tagConflicts ≤ 1 → ∃ items fingerprint,
        items = i.tags.items ++ (wanted.filter fun t => t ∉ i.tags.items).eraseDups ∧
        r = .ok { i with tags := ⟨items, some fingerprint⟩ } ∧ w.Leads zone name (w.service.tagConflicts + 1) w' ∧
        w.service.Swaps zone name { i with tags := ⟨items, some fingerprint⟩ } w'.service ∧
        w'.service.applied = w.service.applied ++ [.setTags name items (some fingerprint)]) ∧
      ((∃ t ∈ wanted, t ∉ i.tags.items) → 2 ≤ w.service.tagConflicts → ∃ message fingerprint,
        r = .error (.conflict name message) ∧ w.Leads zone name 2 w' ∧
        w.service.Swaps zone name { i with tags := ⟨i.tags.items, some fingerprint⟩ } w'.service ∧
        w'.service.applied = w.service.applied) := by
  have h : w.service.Taggable zone name i := ⟨hi, hfetches, hscripted⟩
  by_cases hall : i.tags.containsAll wanted = true
  · have hnone : ¬ ∃ t ∈ wanted, t ∉ i.tags.items := fun ⟨t, ht, hno⟩ => hno (Tags.containsAll_iff.1 hall t ht)
    exact ⟨_, _, run_setTags_of_inl c (run_setTagsOnce_of_present c hi hall),
      fun _ => ⟨rfl, .read hw rfl, rfl, rfl⟩, fun hlacks => absurd hlacks hnone, fun hlacks => absurd hlacks hnone⟩
  have hlacks : ¬ ∀ t ∈ wanted, t ∈ i.tags.items := fun hpresent => hall (Tags.containsAll_iff.2 hpresent)
  rcases Nat.eq_zero_or_pos w.service.tagConflicts with hk | hk
  · obtain ⟨fingerprint, w', hrun, hleads, hswaps, happlied⟩ := run_setTagsOnce_of_echo c hw h hall hk hp
    refine ⟨_, w', run_setTags_of_inl c hrun, fun hpresent => absurd hpresent hlacks,
      fun _ _ => ⟨_, fingerprint, Tags.merged_eq .., rfl, ?_, hswaps, happlied⟩, fun _ htwo => by omega⟩
    rwa [hk]
  -- The first request meets a conflict, after which the instance has the same tags with another fingerprint.
  obtain ⟨f₁, w₁, hrun₁, hleads₁, hswaps₁, happlied₁, hk₁, hpolls, h₁⟩ := run_setTagsOnce_of_conflict c hw h hall hk
  have hrun := run_setTags_of_inr c hrun₁
  rcases Nat.eq_zero_or_pos w₁.service.tagConflicts with hk₂ | hk₂
  · obtain ⟨fingerprint, w', hrun₂, hleads₂, hswaps₂, happlied₂⟩ :=
      run_setTagsOnce_of_echo c hleads₁.interventions h₁ hall hk₂ (hpolls ▸ hp)
    have hone : w.service.tagConflicts = 1 := by omega
    refine ⟨_, w', hrun.1 _ w' hrun₂, fun hpresent => absurd hpresent hlacks,
      fun _ _ => ⟨_, fingerprint, Tags.merged_eq .., rfl, ?_, hswaps₁.trans hswaps₂, happlied₁ ▸ happlied₂⟩,
      fun _ htwo => by omega⟩
    rw [hone]
    exact hleads₁.trans hleads₂
  · obtain ⟨fingerprint, w', hrun₂, hleads₂, hswaps₂, happlied₂, -⟩ :=
      run_setTagsOnce_of_conflict c hleads₁.interventions h₁ hall hk₂
    exact ⟨_, w', hrun.2 _ w' hrun₂, fun hpresent => absurd hpresent hlacks, fun _ hone => by omega,
      fun _ _ => ⟨_, fingerprint, rfl, hleads₁.trans hleads₂, hswaps₁.trans hswaps₂, happlied₂.trans happlied₁⟩⟩

/-- The instance has a tag. Another client is faster once, one wanted tag is there already and one is named twice. -/
theorem setTags_merges_rival :
    let seeded := ((Memory.empty "project").withPollsUntilDone 1).seedNode "zone-a" "web-1" "net" "web"
    let i : Instance := { seeded.1 with tags := ⟨["db"], seeded.1.tags.fingerprint⟩ }
    let w := World.start ((seeded.2.seed (.instance i)).injectTagConflicts 1) 0
    ∃ w' fingerprint,
      (Client.standard.setTags (.zone "zone-a") "web-1" ["http", "db", "ssh", "http"]).run.run w =
        (.ok { i with tags := ⟨["db", "http", "ssh"], some fingerprint⟩ }, w') ∧
      w.Leads (.zone "zone-a") "web-1" 2 w' := by
  intro seeded i w
  have hi : w.service.find? .instance (.zone "zone-a") "web-1" = some (.instance i) := by decide +kernel
  obtain ⟨r, w', hrun, -, hlacks, -⟩ := setTags_merges Client.standard ["http", "db", "ssh", "http"] rfl hi rfl
    (by decide +kernel) (PollPolicy.patient_one _)
  obtain ⟨items, fingerprint, hitems, hr, hleads, -⟩ :=
    hlacks ⟨"http", by decide, by decide +kernel⟩ (by decide +kernel)
  obtain rfl : items = ["db", "http", "ssh"] := hitems.trans (by decide +kernel)
  exact ⟨w', fingerprint, hrun.trans (congrArg (·, w') hr), hleads⟩

end Attempts

end Fleet
