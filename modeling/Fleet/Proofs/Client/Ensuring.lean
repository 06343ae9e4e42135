import Fleet.Proofs.Client.Creating
import Fleet.Proofs.Client.Interleaved
import Fleet.Proofs.Conduct.Playing
import Fleet.Proofs.Memory.Faults

/-!
# Ensuring a resource together

Any number of clients ensure the same network or firewall on a platform without faults, and their calls are interleaved
in any way. Each of them looks the resource up, asks for it where it is missing and reads it in the end; which request
is carried out first is decided by the fetches of the operations, and the others learn of it from the refusal of their
own. As long as they work, the store is what it was or has the resource besides (`Memory.Ensured`), and that is all
that a client has to know of the others (`Regime.ensuring`). In the end all of them have the same resource
(`ensure_agrees`).
-/

namespace Fleet

open Memory

variable {ι : Type}

/-! ### One of the clients -/

namespace Regime

variable {R : Regime ι} {i : ι} {A : Memory → Prop} {E : Failure → Memory → Prop} {scope : Scope} {spec : ResourceSpec}

/-- How creating a shared resource may fail: it is there already, or it takes too long. -/
private def Refused (A : Memory → Prop) (scope : Scope) (spec : ResourceSpec) (f : Failure) (m : Memory) : Prop :=
  (f.code? = some .alreadyExists ∧ Stored A scope spec m) ∨ f.TimesOut

private theorem achieves_createShared (hR : R.Faultless) (c : Client) (h : R.Sharing i A scope spec E)
    (hlate : ∀ m f, R.inv m → f.TimesOut → E f m) :
    R.Achieves i A (c.createShared spec.kind scope spec.name spec) (fun v m =>
      m.resources.find? (resourceKey spec.kind scope spec.name) = some (Resource.ofRecord spec.kind v)) E := by
  have hstored : R.Stable i (Stored A scope spec) := h.stable_stored
  have hrefused (f : Failure) : R.Stable i (Refused A scope spec f) := by
    intro m m' hm hm' hk hf
    exact hf.imp_left fun ⟨hcode, hs⟩ => ⟨hcode, hstored m m' hm hm' hk hs⟩
  have hsubmit : R.Achieves i A (do let o ← c.submitInsert scope spec; c.awaitDone o) (fun _ => Stored A scope spec)
      (Refused A scope spec) := by
    refine achieves_submit hR c h.stable hstored hrefused (fun m r hm hA hr => ?_) fun m f _ hf => .inr hf
    obtain ⟨hallow, hs, hcode⟩ := h.apply hm hA hr fun _ => (hR.faultFree m hm).scripted _
    refine ⟨hallow, ?_⟩
    rcases hu : (m.apply (.create r)).1 with e | u
    · intro f hf
      rw [hcode e hu] at hf
      exact .inl ⟨hf, hs⟩
    · exact hs
  have taken : R.Achieves i (Stored A scope spec) (c.fetch spec.kind scope spec.name) (fun v m =>
      m.resources.find? (resourceKey spec.kind scope spec.name) = some (Resource.ofRecord spec.kind v)) E :=
    achieves_fetch_stored c hstored h.stays fun m _ hs => hs.2
  refine hsubmit.outcome.bind fun r => ?_
  -- Whoever is refused because the resource is there takes what is there.
  rcases r with f | v
  · show R.Achieves i (Refused A scope spec f) (if f.isAlreadyExists = true then _ else throw f) _ E
    by_cases hf : f.isAlreadyExists = true
    · rw [if_pos hf]
      refine taken.conseq (fun m _ hm => ?_) (fun _ _ _ hv => hv) fun _ _ _ he => he
      rcases hm with ⟨-, hs⟩ | hlate
      · exact hs
      · cases f <;> simp [Failure.TimesOut, Failure.isAlreadyExists, Failure.code?] at hlate hf
    · rw [if_neg hf]
      refine achieves_throw (hrefused f) fun m hm hfails => ?_
      rcases hfails with ⟨hcode, -⟩ | hfails
      · exact absurd (by simp [Failure.isAlreadyExists, hcode]) hf
      · exact hlate m f hm hfails
  · exact taken

/-- Ensuring a shared resource ends with the resource that is stored, unless it takes too long. -/
theorem achieves_ensure (hR : R.Faultless) (c : Client) (h : R.Sharing i A scope spec E)
    (hlate : ∀ m f, R.inv m → f.TimesOut → E f m) :
    R.Achieves i A (c.ensure spec.kind scope spec.name spec) (fun v m =>
      m.resources.find? (resourceKey spec.kind scope spec.name) = some (Resource.ofRecord spec.kind v)) E := by
  refine ⟨fun x hx hA => ?_⟩
  have hfetch := (achieves_fetch? (i := i) (E := E) c h.stable h.stays).heeds x hx hA
  have hnoting : (c.ensureNoting spec.kind scope spec.name spec).Heeds R.conduct i (fun r y => R.inv y.1 ∧
      Ends (fun v m => m.resources.find? (resourceKey spec.kind scope spec.name) =
        some (Resource.ofRecord spec.kind v)) E r.1 y.1) x := by
    refine hfetch.bind fun r y hr => ?_
    rcases r with f | v
    · exact fun z hz => hr z hz
    · cases v with
      | some a => exact fun z hz => ⟨(hr z hz).1, (hr z hz).2.2.1 a rfl⟩
      | none =>
        obtain ⟨hinv, hAy, -⟩ := hr y (R.conduct.drift_refl i y)
        exact ((achieves_createShared hR c h hlate).heeds y hinv hAy).bind fun r z hr w hw => hr w hw
  exact hnoting.bind fun r y hr z hz => hr z hz

end Regime

/-! ### All of them -/

/-- The platform is what it was, or one resource is stored besides under a key that was free. -/
structure Memory.Ensured (m₀ : Memory) (k : ResourceKey) (P : Resource → Prop) (m : Memory) : Prop where
  keyed : m.WellKeyed
  faultFree : m.FaultFree
  project : m.project = m₀.project
  polls : m.pollsUntilDone = m₀.pollsUntilDone
  store : (m.resources = m₀.resources ∧ m.applied = m₀.applied) ∨
    (m₀.resources.find? k = none ∧ ∃ r, P r ∧ m.resources = m₀.resources.insert k r ∧
      m.applied = m₀.applied ++ [.insert k.1 k.2.2])

section Ensuring

variable {m₀ m m' : Memory} {k : ResourceKey} {P : Resource → Prop} {r : Resource}

theorem Memory.Ensured.of_quiet (h : m₀.Ensured k P m) (hq : m.Quiet m') : m₀.Ensured k P m' := by
  refine ⟨?_, h.faultFree.continues hq.toContinues, hq.project.trans h.project, hq.polls.trans h.polls, ?_⟩
  · intro j r hr
    rw [hq.resources] at hr
    exact h.keyed j r hr
  · rw [hq.resources, hq.applied]
    exact h.store

/-- Where the key is still free, nothing has changed yet, and the resource may come. -/
theorem Memory.Ensured.seed (h : m₀.Ensured k P m) (hfree : m.resources.find? k = none) (hkey : r.key = k) (hr : P r) :
    m₀.Ensured k P ((m.log (.insert r.kind r.name)).seed r) := by
  subst hkey
  rcases h.store with ⟨hres, happ⟩ | ⟨-, s, -, hres, -⟩
  · rw [hres] at hfree
    refine ⟨h.keyed.seed r, h.faultFree.continues (continues_seed m _ r), h.project, h.polls,
      .inr ⟨hfree, r, hr, ?_, ?_⟩⟩
    · exact congrArg (OrderedMap.insert · r.key r) hres
    · exact congrArg (· ++ [JournalEntry.insert r.kind r.name]) happ
  · rw [hres, OrderedMap.find?_insert, if_pos rfl] at hfree
    exact absurd hfree (by simp)

/-- What is stored under the key tells what has happened. -/
theorem Memory.Ensured.agrees (h : m₀.Ensured k P m) (hr : m.resources.find? k = some r) :
    (∀ s, m₀.resources.find? k = some s → r = s ∧ m.resources = m₀.resources ∧ m.applied = m₀.applied) ∧
      (m₀.resources.find? k = none → P r ∧ m.resources = m₀.resources.insert k r ∧
        m.applied = m₀.applied ++ [.insert k.1 k.2.2]) := by
  rcases h.store with ⟨hres, happ⟩ | ⟨hnone, s, hs, hres, happ⟩
  · rw [hres] at hr
    refine ⟨fun s hs => ⟨Option.some.inj (hr.symm.trans hs), hres, happ⟩, fun hnone => ?_⟩
    exact absurd (hr.symm.trans hnone) (by simp)
  · rw [hres, OrderedMap.find?_insert, if_pos rfl] at hr
    cases hr
    exact ⟨fun s hs => absurd (hs.symm.trans hnone) (by simp), fun _ => ⟨hs, hres, happ⟩⟩

/-- What the clients have to know of each other while they ensure the same resource. -/
def Regime.ensuring (ι : Type) (m₀ : Memory) (k : ResourceKey) (P : Resource → Prop) : Regime ι where
  inv := m₀.Ensured k P
  keeps _ m m' := m.Continues m' ∧ ∀ r, m.resources.find? k = some r → m'.resources.find? k = some r
  respects _ _ := True
  project := m₀.project
  polls := m₀.pollsUntilDone
  steady := True
  tame := True
  stoppable := True
  inv_quiet h hq := h.of_quiet hq
  keeps_quiet _ hq := ⟨hq.toContinues, fun r hr => by rw [hq.resources]; exact hr⟩
  keeps_trans h h' := ⟨h.1.trans h'.1, fun r hr => h'.2 r (h.2 r hr)⟩
  respects_refl _ := trivial
  respects_quiet _ _ _ := trivial
  wellKeyed h := h.keyed
  project_eq h := h.project
  polls_eq h := h.polls
  fetches _ h := h.faultFree.fetches
  keeps_unscripted _ h hn := h.1.scripted_none hn
  lost_unscripted _ h _ := h.faultFree.scripted _

theorem Regime.faultless_ensuring : (Regime.ensuring ι m₀ k P).Faultless :=
  ⟨trivial, fun _ hm => hm.faultFree⟩

private theorem fits_of_global {scope : Scope} {spec : ResourceSpec} (h : spec.kind.isZonal = false) :
    Fits scope spec := fun hzonal => absurd (h.symm.trans hzonal) (by simp)

theorem Regime.sharing_ensuring (i : ι) {scope : Scope} {spec : ResourceSpec} (hglobal : spec.kind.isZonal = false)
    (hkey : resourceKey spec.kind scope spec.name = k) (hP : ∀ r, Makes m₀.project scope spec r → P r) :
    (Regime.ensuring ι m₀ k P).Sharing i (fun _ => True) scope spec (fun f _ => f.TimesOut) where
  fits := fits_of_global hglobal
  self_contained m r hr := by
    have hkind : r.kind = spec.kind := congrArg (·.1) (hr.key_eq (fits_of_global hglobal))
    cases r with
    | «instance» i =>
      rw [← hkind] at hglobal
      exact absurd hglobal (by simp [Resource.kind, Kind.isZonal])
    | _ => rfl
  stable := Regime.stable_const True
  still_failed f := (Regime.stable_const (i := i) f.TimesOut).still
  stays r := by
    intro m m' _ _ hk hr
    rw [hkey] at hr ⊢
    exact hk.2 r hr
  effect m r hm _ hr _ hfree := by
    have hrkey : r.key = k := (hr.key_eq (fits_of_global hglobal)).trans hkey
    rw [hkey] at hfree
    refine ⟨⟨hm.seed hfree hrkey (hP r hr), trivial, fun j _ => ⟨continues_seed m _ r, fun s hs => ?_⟩⟩, trivial⟩
    rw [hfree] at hs
    exact absurd hs (by simp)
  ordered m x hm _ hx := by
    rw [hm.faultFree.scripted] at hx
    exact absurd hx (by simp)
  given_up hgone := by
    rcases hgone with hnot | ⟨m, hm, hlost⟩
    · exact absurd trivial hnot
    · rw [hm.faultFree.lost] at hlost
      exact absurd hlost (by simp)

end Ensuring

/-- A client and its request for a resource of a kind with a name. -/
structure Ensurer (kind : Kind) (name : String) where
  client : Client
  scope : Scope
  spec : ResourceSpec
  kind_eq : spec.kind = kind
  name_eq : spec.name = name

section Ensurers

variable {kind : Kind} {name : String}

def Ensurer.ensure (e : Ensurer kind name) : Action kind.Record := e.client.ensure kind e.scope name e.spec

/-- What the request of a client makes of the resource. -/
def Ensurer.Makes (e : Ensurer kind name) (m : Memory) (r : Resource) : Prop := Memory.Makes m.project e.scope e.spec r

/-- Clients that ensure the same resource on a platform. -/
def ensurers (e : ι → Ensurer kind name) (m : Memory) : Crowd Cloud Memory ι (Except Failure kind.Record) :=
  ⟨fun i => (e i).ensure.run, m⟩

/-- The resource of the clients is stored. -/
def Ensurer.Finds (name : String) (a : kind.Record) (m : Memory) : Prop :=
  m.resources.find? (resourceKey kind .global name) = some (Resource.ofRecord kind a)

private theorem resourceKey_of_global (hkind : kind.isZonal = false) (scope : Scope) :
    resourceKey kind scope name = resourceKey kind .global name := by
  simp [resourceKey, hkind]

/-- What any of the clients achieves beside the others. -/
theorem Ensurer.achieves (hkind : kind.isZonal = false) (e : Ensurer kind name) (i : ι) {m : Memory}
    {P : Resource → Prop} (hP : ∀ r, e.Makes m r → P r) :
    (Regime.ensuring ι m (resourceKey kind .global name) P).Achieves i (fun _ => True) e.ensure
      (Ensurer.Finds name) (fun f _ => f.TimesOut) := by
  obtain ⟨c, scope, spec, rfl, rfl⟩ := e
  have hkey : resourceKey spec.kind scope spec.name = resourceKey spec.kind .global spec.name :=
    resourceKey_of_global hkind scope
  refine (Regime.achieves_ensure Regime.faultless_ensuring c
    (Regime.sharing_ensuring i hkind hkey hP) fun _ _ _ hf => hf).conseq ?_ ?_ ?_
  · exact fun _ _ h => h
  · intro a m' _ ha
    rw [hkey] at ha
    exact ha
  · exact fun _ _ _ hf => hf

variable [DecidableEq ι] {e : ι → Ensurer kind name} {m : Memory} {schedule : Nat → Move ι}

/-- At any time, the platform has at most the one resource more, and who has come to an end has found it or has waited
too long. -/
theorem play_ensurers (hkind : kind.isZonal = false) (e : ι → Ensurer kind name) (hkeyed : m.WellKeyed)
    (hfree : m.FaultFree) (schedule : Nat → Move ι) (n : Nat) :
    m.Ensured (resourceKey kind .global name) (fun r => ∃ i, (e i).Makes m r)
        ((ensurers e m).play schedule n).service ∧
      ∀ i r, ((ensurers e m).play schedule n).programs i = .done r →
        Regime.Ends (Ensurer.Finds name) (fun f _ => f.TimesOut) r ((ensurers e m).play schedule n).service := by
  let R := Regime.ensuring ι m (resourceKey kind .global name) fun r => ∃ i, (e i).Makes m r
  have hinv : R.inv m := ⟨hkeyed, hfree, rfl, rfl, .inl ⟨rfl, rfl⟩⟩
  have hachieves (i : ι) : R.Achieves i (fun _ => True) (e i).ensure (Ensurer.Finds name) fun f _ => f.TimesOut :=
    (e i).achieves hkind i fun r hr => ⟨i, hr⟩
  have hheeds (i : ι) := (hachieves i).heeds (m, fun _ => none) hinv trivial
  obtain ⟨hservice, g, hends⟩ := Crowd.ends_of_heeds (k := ensurers e m) (c := R.conduct) (P := R.inv)
    (fun j q s g _ hmay => hmay.2.inv) hinv hheeds schedule n
  exact ⟨hservice, fun i r hr => (hends i r hr).2⟩

/-- Clients that ensure the same network or firewall on a platform without faults, and have turns again and again, all
come to the same resource unless they wait too long: the one that was there before, and nothing has changed, or the one
that a single request has put there, and nothing else has changed. -/
theorem ensure_agrees [Finite ι] [Nonempty ι] (hkind : kind.isZonal = false) (e : ι → Ensurer kind name)
    (hkeyed : m.WellKeyed) (hfree : m.FaultFree) (hturns : TakesTurns schedule)
    (hpunctual : ∀ n i f, ((ensurers e m).play schedule n).programs i = .done (.error f) → ¬ f.TimesOut) :
    ∃ N a, ∀ n, N ≤ n →
      (∀ i, ((ensurers e m).play schedule n).programs i = .done (.ok a)) ∧
      (∀ r, m.resources.find? (resourceKey kind .global name) = some r → Resource.ofRecord kind a = r ∧
        ((ensurers e m).play schedule n).service.resources = m.resources ∧
        ((ensurers e m).play schedule n).service.applied = m.applied) ∧
      (m.resources.find? (resourceKey kind .global name) = none → (∃ i, (e i).Makes m (Resource.ofRecord kind a)) ∧
        ((ensurers e m).play schedule n).service.resources =
          m.resources.insert (resourceKey kind .global name) (Resource.ofRecord kind a) ∧
        ((ensurers e m).play schedule n).service.applied = m.applied ++ [.insert kind name]) := by
  obtain ⟨N, results, hdone⟩ := (ensurers e m).exists_all_done hturns
  -- Nobody waits too long, so each of them finds what is stored under the one key.
  have hfinds (n : Nat) (hn : N ≤ n) (i : ι) : ∃ a, results i = .ok a ∧
      Ensurer.Finds name a ((ensurers e m).play schedule n).service := by
    have hends := (play_ensurers hkind e hkeyed hfree schedule n).2 i (results i) (hdone n hn i)
    cases hr : results i with
    | error f =>
      rw [hr] at hends
      exact absurd hends (hpunctual n i f (hr ▸ hdone n hn i))
    | ok a =>
      rw [hr] at hends
      exact ⟨a, rfl, hends⟩
  have hsame (i j : ι) : results i = results j := by
    obtain ⟨a, ha, hstored⟩ := hfinds N (Nat.le_refl N) i
    obtain ⟨b, hb, hstored'⟩ := hfinds N (Nat.le_refl N) j
    have hab : Resource.ofRecord kind a = Resource.ofRecord kind b := Option.some.inj (hstored.symm.trans hstored')
    rw [ha, hb, Resource.ofRecord_injective hab]
  obtain ⟨i⟩ := ‹Nonempty ι›
  obtain ⟨a, ha, -⟩ := hfinds N (Nat.le_refl N) i
  refine ⟨N, a, fun n hn => ⟨fun j => ?_, ?_⟩⟩
  · rw [hdone n hn j, hsame j i, ha]
  · obtain ⟨b, hb, hstored⟩ := hfinds n hn i
    obtain rfl : a = b := Except.ok.inj (ha.symm.trans hb)
    exact (play_ensurers hkind e hkeyed hfree schedule n).1.agrees hstored

/-- The same holds when they are run as a pool, however many of them run at a time. -/
theorem runPool_ensurers [Nonempty ι] (hkind : kind.isZonal = false) (e : ι → Ensurer kind name)
    (hkeyed : m.WellKeyed) (hfree : m.FaultFree) (width : Nat) {names : List ι} (hnames : names.Nodup)
    {w : World Cloud Memory} (hs : w.service = m) (hw : w.interventions = []) :
    m.Ensured (resourceKey kind .global name) (fun r => ∃ i, (e i).Makes m r)
        (runPool width (names.map fun i => (e i).ensure.run) w).2.service ∧
      ∃ es : List (ι × Except Failure kind.Record),
        (runPool width (names.map fun i => (e i).ensure.run) w).1 = es.map (·.2) ∧ (es.map (·.1)).Perm names ∧
        ∀ x ∈ es, Regime.Ends (Ensurer.Finds name) (fun f _ => f.TimesOut) x.2
          (runPool width (names.map fun i => (e i).ensure.run) w).2.service := by
  obtain ⟨schedule, n, hservice, es, hes, hperm, hdone⟩ :=
    (ensurers e m).exists_play_of_runPool width hnames hs.symm hw
  obtain ⟨hensured, hends⟩ := play_ensurers hkind e hkeyed hfree schedule n
  rw [hservice] at hensured hends
  exact ⟨hensured, es, hes, hperm, fun x hx => hends x.1 x.2 (hdone x hx)⟩

end Ensurers

/-- Two clients that want the same network with different ranges. -/
def rivals (i : Fin 2) : Ensurer .network "net" where
  client := .standard
  scope := .global
  spec := .network ⟨"net", if i = 0 then "10.0.0.0/8" else "10.1.0.0/16", none⟩
  kind_eq := rfl
  name_eq := rfl

/-- They start on an empty platform, where an operation is done when it is first asked for. -/
def rivalry : Crowd Cloud Memory (Fin 2) (Except Failure Network) :=
  ensurers rivals ((Memory.empty "project").withPollsUntilDone 1)

/-- They take turns step by step, and no time passes. -/
def alternating (n : Nat) : Move (Fin 2) := ⟨⟨n % 2, Nat.mod_lt n (by decide)⟩, 0, false⟩

theorem takesTurns_alternating : TakesTurns alternating := by
  intro i n
  refine ⟨2 * n + i, by omega, Fin.ext ?_⟩
  show (2 * n + i.val) % 2 = i.val
  omega

private def succeeded {α : Type} : Program Cloud (Except Failure α) → Bool
  | .done (.ok _) => true
  | _ => false

private theorem succeeded_rivals (i : Fin 2) : succeeded ((rivalry.play alternating 10).programs i) = true := by
  revert i
  decide +kernel

theorem ensure_agrees_of_two : ∃ N a, ∀ n, N ≤ n →
    (∀ i, (rivalry.play alternating n).programs i = .done (.ok a)) ∧
      (rivalry.play alternating n).service.resources =
        OrderedMap.empty.insert (resourceKey .network .global "net") (.network a) ∧
      (rivalry.play alternating n).service.applied = [.insert .network "net"] := by
  have hpunctual (n : Nat) (i : Fin 2) (f : Failure) (hf : (rivalry.play alternating n).programs i = .done (.error f)) :
      ¬ f.TimesOut := by
    have hok := succeeded_rivals i
    unfold succeeded at hok
    split at hok
    · next h => exact absurd (Crowd.eq_of_programs_play hf h) (by simp)
    · exact absurd hok (by simp)
  obtain ⟨N, a, hall⟩ := ensure_agrees rfl rivals (canonical_empty "project" 1).keyed (faultFree_empty "project" 1)
    takesTurns_alternating hpunctual
  refine ⟨N, a, fun n hn => ⟨(hall n hn).1, ?_⟩⟩
  obtain ⟨-, hresources, happlied⟩ := (hall n hn).2.2 rfl
  exact ⟨hresources, happlied⟩

end Fleet
