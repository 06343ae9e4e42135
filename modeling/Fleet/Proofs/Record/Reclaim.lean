import Fleet.Platform.Script
import Fleet.Proofs.Record.Client
import Fleet.Reclaim

/-!
# Networks that are in use

Whatever a platform answers, a network that is reported to be in use has not been deleted, and as long as the
platform itself has not said that it is in use, nothing has been changed at all (`spared_of_inUse`). When the platform
says so, the first count has found the network unused and its firewalls may be gone
(`reclaimNetwork_of_picked_up`).
-/

namespace Fleet

variable {σ : Type} {es es' : List (Exchange Cloud)} {network : String} {remaining : Nat}

/-- What it means that a network is in use by `remaining` instances, when this was found out by the exchanges `es`. -/
structure Spared (network : String) (remaining : Nat) (es : List (Exchange Cloud)) : Prop where
  kept : hasDeleted .network es = false
  untouched : ¬ Client.ToldInUse .network .global network es →
    0 < remaining ∧ ∀ e ∈ es, e.query.isMutation = false

private theorem not_delete_of_isMutation {e : Exchange Cloud} (h : e.query.isMutation = false) (kind : Kind) :
    e.deletes? kind = none :=
  Exchange.deletes?_eq_none fun scope name hq => by
    rw [hq] at h
    exact absurd h (by simp [Call.isMutation])

/-- What was read before does not matter. -/
private theorem Spared.append (h : Spared network remaining es') (hes : ∀ e ∈ es, e.query.isMutation = false) :
    Spared network remaining (es' ++ es) := by
  refine ⟨?_, fun hnot => ?_⟩
  · rw [hasDeleted_append_left fun e he => not_delete_of_isMutation (hes e he) _]
    exact h.kept
  · have hnot' : ¬ Client.ToldInUse .network .global network es' := by
      rintro ⟨e, he, hu, hq⟩
      refine hnot ⟨e, List.mem_append_left _ he, hu, hq.imp_right ?_⟩
      rintro ⟨o, ho, e', he', hd⟩
      exact ⟨o, ho, e', List.mem_append_left _ he', hd⟩
    obtain ⟨hpos, hread⟩ := h.untouched hnot'
    exact ⟨hpos, fun e he => (List.mem_append.1 he).elim (hread e) (hes e)⟩

namespace Client

/-! ### The exchanges of a reclamation -/

private theorem always_remainingInstances (c : Client) (link : String) (excluding : List String) :
    (c.remainingInstances link excluding).run.Always fun _ es =>
      ∀ e ∈ es, e.query = Call.list .instance (.onNetwork link) := by
  refine Action.always_bind ((always_list c .instance (.onNetwork link)).mono fun r es hr => ?_)
  rcases r with f | is
  · exact hr
  · exact Action.always_pure hr

private theorem always_deleteFirewalls (c : Client) (fs : List Firewall) :
    (c.deleteFirewalls fs).run.Always fun _ es => ∀ e ∈ es, e.deletes? .network = none := by
  induction fs with
  | nil => exact Action.always_pure (by simp)
  | cons f fs ih =>
    refine Action.always_bind ((always_deleteIfExists c .firewall .global f.name).mono fun r es hr => ?_)
    have hes : ∀ e ∈ es, e.deletes? .network = none := by
      intro e he
      refine Exchange.deletes?_eq_none fun scope name hq => ?_
      rcases hr.query_eq e he with h | ⟨o, h⟩
      · exact absurd (hq.symm.trans h) (by simp)
      · exact absurd (hq.symm.trans h) (by simp)
    rcases r with f | found
    · exact hes
    · refine Action.always_bind (ih.mono fun r es' hr' => ?_)
      have happ : ∀ e ∈ es' ++ es, e.deletes? .network = none :=
        fun e he => (List.mem_append.1 he).elim (hr' e) (hes e)
      rcases r with f | more
      · exact happ
      · exact Action.always_pure happ

/-- The network's deletion failed because it is in use, and the instances were counted once more. -/
private theorem spared_of_told {es₁ es₂ es₃ : List (Exchange Cloud)} {f : Failure} {n : Nat} {link : String}
    (h₁ : ∀ e ∈ es₁, e.deletes? .network = none)
    (h₂ : Attempted .network .global network (.error f : Except Failure Bool) es₂) (hf : f.isInUse = true)
    (h₃ : ∀ e ∈ es₃, e.query = Call.list .instance (.onNetwork link)) :
    Spared network n (es₃ ++ (es₂ ++ es₁)) := by
  have hcount : ∀ e ∈ es₃, ∀ o, e.confirms o = false := by
    refine fun e he => Exchange.confirms_eq_false fun o hq => ?_
    exact absurd ((h₃ e he).symm.trans hq) (by simp)
  refine ⟨?_, fun hnot => absurd ?_ hnot⟩
  · rw [← List.append_assoc]
    refine hasDeleted_append (fun e he => ?_) h₁
    exact (List.mem_append.1 he).elim (hcount e) (h₂.unconfirmed f rfl e)
  · obtain ⟨e, he, hu, hq⟩ := h₂.in_use f rfl hf
    have hmem : ∀ {e}, e ∈ es₂ → e ∈ es₃ ++ (es₂ ++ es₁) :=
      fun he => List.mem_append_right _ (List.mem_append_left _ he)
    refine ⟨e, hmem he, hu, hq.imp_right ?_⟩
    rintro ⟨o, ho, e', he', hd⟩
    exact ⟨o, ho, e', hmem he', hd⟩

/-- An outcome bears the name of the network, and a network that is in use is spared. -/
private def Concluded (network : String) (r : Except Failure NetworkOutcome) (es : List (Exchange Cloud)) : Prop :=
  ∀ o, r = .ok o → o.network = network ∧ ∀ remaining, o = .inUse network remaining → Spared network remaining es

private theorem concluded_error (f : Failure) : Concluded network (.error f) es := fun o h => by cases h

private theorem concluded_ok {o : NetworkOutcome} (hname : o.network = network)
    (h : ∀ remaining, o = .inUse network remaining → Spared network remaining es) : Concluded network (.ok o) es := by
  intro o' ho
  cases ho
  exact ⟨hname, h⟩

private theorem always_reclaimShared (c : Client) (link : String) (excluding : List String) :
    (c.reclaimShared link excluding).run.Always (Concluded (Link.name link)) := by
  unfold reclaimShared
  by_cases hname : Link.name link = Naming.defaultNetwork
  · rw [if_pos hname]
    exact Action.always_pure (concluded_ok rfl fun remaining h => by cases h)
  rw [if_neg hname]
  refine Action.always_bind ((always_remainingInstances c link excluding).mono fun r es₀ h₀ => ?_)
  rcases r with f | n
  · exact concluded_error f
  by_cases hn : 0 < n
  · -- The first count has found an instance, and nothing else has been asked.
    simp only [if_pos hn]
    refine Action.always_pure (concluded_ok rfl fun remaining h => ?_)
    cases h
    refine ⟨?_, fun _ => ⟨hn, fun e he => ?_⟩⟩
    · refine hasDeleted_eq_false fun e he => Exchange.deletes?_eq_none fun _ _ hq => ?_
      exact absurd (hq.symm.trans (h₀ e he)) (by simp)
    · rw [h₀ e he]
      rfl
  simp only [if_neg hn]
  refine Action.always_bind ((always_list c .firewall (.onNetwork link)).mono fun r es₁ h₁ => ?_)
  rcases r with f | fs
  · exact concluded_error f
  refine Action.always_bind ((always_deleteFirewalls c fs).mono fun r es₂ h₂ => ?_)
  rcases r with f | deleted
  · exact concluded_error f
  refine Action.always_bind (Action.always_outcome
    ((always_deleteIfExists c .network .global (Link.name link)).mono fun r es₃ h₃ => ?_))
  have hread : ∀ e ∈ es₁ ++ es₀, e.deletes? .network = none := by
    intro e he
    refine Exchange.deletes?_eq_none fun _ _ hq => ?_
    rcases List.mem_append.1 he with he | he
    · exact absurd (hq.symm.trans (h₁ e he)) (by simp)
    · exact absurd (hq.symm.trans (h₀ e he)) (by simp)
  have hearlier : ∀ e ∈ es₂ ++ (es₁ ++ es₀), e.deletes? .network = none :=
    fun e he => (List.mem_append.1 he).elim (h₂ e) (hread e)
  rcases r with f | found
  · show (if f.isInUse = true then _ else throw f : Action NetworkOutcome).run.Always _
    by_cases hf : f.isInUse = true
    · rw [if_pos hf]
      refine Action.always_bind ((always_remainingInstances c link excluding).mono fun r es₄ h₄ => ?_)
      rcases r with g | m
      · exact concluded_error g
      · refine Action.always_pure (concluded_ok rfl fun remaining h => ?_)
        cases h
        simpa only [List.nil_append, List.append_assoc] using spared_of_told hearlier h₃ hf h₄
    · rw [if_neg hf]
      exact Action.always_throw (concluded_error f)
  · refine Action.always_pure ?_
    split <;> exact concluded_ok rfl fun remaining h => by cases h

/-- A failure becomes an outcome, which bears the name of the network, too. -/
theorem always_reclaimRecorded (c : Client) (link : String) (excluding : List String) :
    (c.reclaimRecorded link excluding).run.Always fun r _ => ∃ o, r = .ok o ∧ o.network = Link.name link := by
  refine Action.always_bind (Action.always_outcome ((c.always_reclaimShared link excluding).mono fun r es hr => ?_))
  rcases r with f | o
  · exact Action.always_pure ⟨_, rfl, rfl⟩
  · exact Action.always_pure ⟨o, rfl, (hr o rfl).1⟩

private theorem always_reclaimNetwork (c : Client) (name : String) :
    (c.reclaimNetwork name).run.Always fun r es => ∃ network, Concluded network r es := by
  refine Action.always_bind ((always_fetch? c .network .global name).mono fun r es hr => ?_)
  rcases r with f | _ | n
  · exact ⟨name, concluded_error f⟩
  · exact Action.always_pure ⟨name, concluded_ok rfl fun remaining h => by cases h⟩
  · refine (always_reclaimShared c n.selfLink []).mono fun r es' hr' => ⟨Link.name n.selfLink, fun o ho => ?_⟩
    obtain ⟨hname, hspared⟩ := hr' o ho
    refine ⟨hname, fun remaining h => (hspared remaining h).append fun e he => ?_⟩
    rw [hr e he]
    rfl

end Client

/-- A network that is reported to be in use has not been deleted; and unless the platform has said that it is in use,
there is an instance on it, and no change has been asked for. -/
theorem spared_of_inUse [Service Cloud σ] {c : Client} {w w' : World Cloud σ} {a : Action NetworkOutcome}
    (ha : (∃ link excluding, a = c.reclaimShared link excluding) ∨ ∃ name, a = c.reclaimNetwork name)
    (h : a.run.run w = (.ok (.inUse network remaining), w')) :
    ∃ es, w'.record = es ++ w.record ∧ Spared network remaining es := by
  have halways : a.run.Always fun r es => ∃ network, Client.Concluded network r es := by
    rcases ha with ⟨link, excluding, rfl⟩ | ⟨name, rfl⟩
    · exact (c.always_reclaimShared link excluding).mono fun r es hr => ⟨_, hr⟩
    · exact c.always_reclaimNetwork name
  obtain ⟨es, hes, network', hconcluded⟩ := halways.run w
  rw [h] at hes hconcluded
  obtain ⟨rfl, hspared⟩ := hconcluded _ rfl
  exact ⟨es, hes, hspared remaining rfl⟩

/-- The outcomes of runs on scripts can be compared. -/
instance {α : Type} [DecidableEq α] : DecidableEq (Except Failure α)
  | .ok a, .ok b => decidable_of_iff (a = b) ⟨congrArg _, Except.ok.inj⟩
  | .error f, .error g => decidable_of_iff (f = g) ⟨congrArg _, Except.error.inj⟩
  | .ok _, .error _ => isFalse nofun
  | .error _, .ok _ => isFalse nofun

theorem eq_ok_of_toOption {α : Type} {x : Except Failure α} {a : α} (h : x.toOption = some a) : x = .ok a := by
  cases x with
  | ok b => exact congrArg _ (Option.some.inj h)
  | error f => exact absurd h (by simp [Except.toOption])

/-- An instance with one network interface and a boot disk. -/
def Script.node (zone name network disk : String) : Instance where
  name := name
  selfLink := name
  zone := zone
  machineType := "f1-micro"
  status := .running
  tags := ⟨[], none⟩
  networkInterfaces := [⟨network, none, none⟩]
  disks := [⟨disk, true, true⟩]
  metadata := .empty

/-- The network is there, and so is an instance on it. -/
def Script.occupied : Script := .ofReplies
  [.resource (some (.network ⟨"net", "net", none, none, none⟩)),
    .resources [.instance (Script.node "zone-a" "web-1" "net" "web-1-boot")]]

theorem spared_of_occupied :
    ((Client.standard.reclaimNetwork "net").run.run (World.start Script.occupied 0)).1 = .ok (.inUse "net" 1) ∧
      ∃ es, ((Client.standard.reclaimNetwork "net").run.run (World.start Script.occupied 0)).2.record = es ++ [] ∧
        Spared "net" 1 es := by
  have h : ((Client.standard.reclaimNetwork "net").run.run (World.start Script.occupied 0)).1 =
      .ok (.inUse "net" 1) := eq_ok_of_toOption (by decide +kernel)
  exact ⟨h, spared_of_inUse (.inr ⟨"net", rfl⟩) (Prod.ext h rfl)⟩

/-- Nobody is on the network at first; after its firewall is gone, the platform finds it in use, and when the instances
are counted again, nobody is on it any more. -/
def Script.pickedUp : Script := .ofReplies
  [.resource (some (.network ⟨"net", "net", none, none, none⟩)), .resources [],
    .resources [.firewall ⟨"net-port-22", "net-port-22", "net", [], [], [], []⟩], .accept, .progress .done [],
    .failure (.rejected .resourceInUse "in use"), .resources []]

/-- A network may be reported to be in use by no instance at all, after its firewall has been deleted. -/
theorem reclaimNetwork_of_picked_up :
    ((Client.standard.reclaimNetwork "net").run.run (World.start Script.pickedUp 0)).1 = .ok (.inUse "net" 0) ∧
      hasDeleted .firewall
        ((Client.standard.reclaimNetwork "net").run.run (World.start Script.pickedUp 0)).2.record = true :=
  ⟨eq_ok_of_toOption (by decide +kernel), by decide +kernel⟩

end Fleet
