import Fleet.Proofs.Record.Retagging
import Fleet.Proofs.Record.Supply
import Fleet.Provision

/-!
# The order in which a node is brought up

Whatever a platform answers, the network, the firewall, the boot disk, the instance and its tags follow each other, and
each of them is begun when the one before has been read (`createNode_provisions`). The requests bear the links that were
read: that for the firewall the link of the network (`OpensTo`), and that for the instance the links of the network and
of the boot disk (`AttachesTo`). After a failure nothing more is asked.
-/

namespace Fleet

variable {σ : Type}

namespace NodeSpec

/-! ### What a node needs -/

def networkSupply (s : NodeSpec) : Supply .network := ⟨.global, .network s.networkSpec, true⟩

def firewallSupply (s : NodeSpec) (n : Network) : Supply .firewall := ⟨.global, .firewall (s.firewallSpec n), true⟩

def diskSupply (s : NodeSpec) : Supply .disk := ⟨.zone s.zone, .disk s.diskSpec, false⟩

def instanceSupply (s : NodeSpec) (n : Network) (d : Disk) : Supply .instance :=
  ⟨.zone s.zone, .instance (s.instanceSpec n d), false⟩

end NodeSpec

/-- Requests for firewalls bear the link of the network. -/
def OpensTo (n : Network) (es : List (Exchange Cloud)) : Prop :=
  ∀ e ∈ es, ∀ scope spec, e.query = .insert scope (.firewall spec) → spec.network = n.selfLink

/-- Requests for instances bear the link of the network and that of the boot disk. -/
def AttachesTo (n : Network) (d : Disk) (es : List (Exchange Cloud)) : Prop :=
  ∀ e ∈ es, ∀ scope spec, e.query = .insert scope (.instance spec) →
    spec.network = n.selfLink ∧ spec.bootDisk = d.selfLink

/-- Nothing is asked but for an instance, for a change of its tags and for operations. -/
def OnlyTags (zone : Scope) (name : String) (es : List (Exchange Cloud)) : Prop :=
  ∀ e ∈ es, e.query = .get .instance zone name ∨ (∃ tags, e.query = .setTags .instance zone name tags) ∨
    ∃ h, e.query = .operation h

/-- The tags of an instance are set, with the outcome `r`. -/
structure Tagged (c : Client) (zone : Scope) (name : String) (wanted : List String) (r : Except Failure Instance)
    (es : List (Exchange Cloud)) : Prop where
  only : OnlyTags zone name es
  outcome : ∃ t t', (c.setTags zone name wanted).run.Trace t r es t'

/-- The exchanges by which a node is brought up, with the outcome `r`. The latest exchange comes first. -/
inductive Provisioned (c : Client) (s : NodeSpec) : Except Failure Instance → List (Exchange Cloud) → Prop
  | network {f : Failure} {es : List (Exchange Cloud)} (h : s.networkSupply.Failed c f es) :
      Provisioned c s (.error f) es
  | firewall {f : Failure} {n : Network} {es es₁ : List (Exchange Cloud)} (hn : s.networkSupply.Obtained n es₁)
      (h : (s.firewallSupply n).Failed c f es) (hopens : OpensTo n es) : Provisioned c s (.error f) (es ++ es₁)
  | disk {f : Failure} {n : Network} {w : Firewall} {es es₁ es₂ : List (Exchange Cloud)}
      (hn : s.networkSupply.Obtained n es₁) (hw : (s.firewallSupply n).Obtained w es₂) (hopens : OpensTo n es₂)
      (h : s.diskSupply.Failed c f es) : Provisioned c s (.error f) (es ++ (es₂ ++ es₁))
  | instance {f : Failure} {n : Network} {w : Firewall} {d : Disk} {es es₁ es₂ es₃ : List (Exchange Cloud)}
      (hn : s.networkSupply.Obtained n es₁) (hw : (s.firewallSupply n).Obtained w es₂) (hopens : OpensTo n es₂)
      (hd : s.diskSupply.Obtained d es₃) (h : (s.instanceSupply n d).Failed c f es) (hattaches : AttachesTo n d es) :
      Provisioned c s (.error f) (es ++ (es₃ ++ (es₂ ++ es₁)))
  | tags {r : Except Failure Instance} {n : Network} {w : Firewall} {d : Disk} {i : Instance}
      {es es₁ es₂ es₃ es₄ : List (Exchange Cloud)} (hn : s.networkSupply.Obtained n es₁)
      (hw : (s.firewallSupply n).Obtained w es₂) (hopens : OpensTo n es₂) (hd : s.diskSupply.Obtained d es₃)
      (hi : (s.instanceSupply n d).Obtained i es₄) (hattaches : AttachesTo n d es₄)
      (h : Tagged c (.zone s.zone) i.name s.desiredTags r es) :
      Provisioned c s r (es ++ (es₄ ++ (es₃ ++ (es₂ ++ es₁))))

/-! ### The links -/

section Links

variable {s : NodeSpec} {n : Network} {d : Disk} {es : List (Exchange Cloud)}

/-- The only request to create a resource is the one that was made out for it. -/
private theorem spec_eq_of_requests {kind : Kind} {p : Supply kind} (h : p.Requests es) {e : Exchange Cloud}
    (he : e ∈ es) {scope : Scope} {spec : ResourceSpec} (hquery : e.query = .insert scope spec) : spec = p.spec := by
  rcases h e he with hq | hq | ⟨t, o, hq, -⟩
  · rw [hquery] at hq
    cases hq
  · rw [hquery] at hq
    cases hq
    rfl
  · rw [hquery] at hq
    cases hq

private theorem opensTo_of_requests (h : (s.firewallSupply n).Requests es) : OpensTo n es := by
  intro e he scope spec hquery
  have hspec : ResourceSpec.firewall spec = .firewall (s.firewallSpec n) := spec_eq_of_requests h he hquery
  cases hspec
  rfl

private theorem attachesTo_of_requests (h : (s.instanceSupply n d).Requests es) : AttachesTo n d es := by
  intro e he scope spec hquery
  have hspec : ResourceSpec.instance spec = .instance (s.instanceSpec n d) := spec_eq_of_requests h he hquery
  cases hspec
  exact ⟨rfl, rfl⟩

end Links

/-! ### The tags -/

section Tags

variable {limit : Nat} {zone : Scope} {name : String} {wanted : List String} {es es' : List (Exchange Cloud)}

private theorem OnlyTags.append (h : OnlyTags zone name es) (h' : OnlyTags zone name es') :
    OnlyTags zone name (es' ++ es) :=
  fun e he => (List.mem_append.1 he).elim (h' e) (h e)

private theorem onlyTags_of_fetched {r : Except Failure Instance}
    (h : Client.Fetched limit .instance zone name r es) : OnlyTags zone name es :=
  fun e he => .inl (h.query_eq e he)

private theorem TagRequest.onlyTags {o : Except Failure Summary} (h : TagRequest limit zone name wanted o es) :
    OnlyTags zone name es := by
  obtain ⟨hread, -, -, hrequest, -⟩ := h
  obtain ⟨a, ha⟩ := hrequest.request
  have hsubmission : OnlyTags zone name _ := fun e he => .inr (.inl ⟨_, ha.query_eq e he⟩)
  have hpolls : OnlyTags zone name _ := fun e he => .inr (.inr (hrequest.polls_query e he))
  exact (onlyTags_of_fetched hread).append (hsubmission.append hpolls)

private theorem TagAttempt.onlyTags {r : Except Failure (Instance ⊕ Failure)}
    (h : TagAttempt limit zone name wanted r es) : OnlyTags zone name es := by
  cases h with
  | unasked hread _ => exact onlyTags_of_fetched hread
  | done h hread => exact h.onlyTags.append (onlyTags_of_fetched hread)
  | conflict h _ => exact h.onlyTags
  | failed h _ => exact h.onlyTags

private theorem Retagging.onlyTags {r : Except Failure Instance} (h : Retagging limit zone name wanted r es) :
    OnlyTags zone name es := by
  cases h with
  | once h => exact h.onlyTags
  | again h h' => exact h.onlyTags.append h'.onlyTags
  | conflict h h' => exact h.onlyTags.append h'.onlyTags

end Tags

namespace Client

/-! ### The node -/

private theorem createNode_eq (c : Client) (s : NodeSpec) : c.createNode s = (do
    let network ← s.networkSupply.action c
    let _ ← (s.firewallSupply network).action c
    let disk ← s.diskSupply.action c
    let inst ← (s.instanceSupply network disk).action c
    c.setTags (.zone s.zone) inst.name s.desiredTags) := rfl

end Client

/-- Every run of a node's launch brings up what the node needs in order, and ends with the outcome of the last step. -/
theorem createNode_provisions [Service Cloud σ] (c : Client) (s : NodeSpec) (w : World Cloud σ) :
    ∃ es, ((c.createNode s).run.run w).2.record = es ++ w.record ∧
      Provisioned c s ((c.createNode s).run.run w).1 es := by
  obtain ⟨es, hes, -, h⟩ := (c.createNode s).run.trace_run w
  refine ⟨es, hes, ?_⟩
  generalize ((c.createNode s).run.run w).1 = r at h ⊢
  rw [Client.createNode_eq] at h
  -- Each step has obtained its resource, or it is the last one.
  rcases Action.trace_bind h with ⟨n, es₁, t₁, es, rfl, hn, h⟩ | ⟨f, rfl, hf⟩
  · have hn := Supply.obtained_of_trace hn
    rcases Action.trace_bind h with ⟨w, es₂, t₂, es, rfl, hw, h⟩ | ⟨f, rfl, hf⟩
    · have hw := Supply.obtained_of_trace hw
      rcases Action.trace_bind h with ⟨d, es₃, t₃, es, rfl, hd, h⟩ | ⟨f, rfl, hf⟩
      · have hd := Supply.obtained_of_trace hd
        rcases Action.trace_bind h with ⟨i, es₄, t₄, es, rfl, hi, h⟩ | ⟨f, rfl, hf⟩
        · have hi := Supply.obtained_of_trace hi
          simp only [List.append_assoc]
          have htagged : Tagged c (.zone s.zone) i.name s.desiredTags r es :=
            ⟨((c.always_setTags_retagging _ _ _).trace h).onlyTags, _, _, h⟩
          exact .tags hn hw (opensTo_of_requests hw.1) hd hi (attachesTo_of_requests hi.1) htagged
        · have hfailed := Supply.failed_of_trace hf
          simp only [List.append_assoc]
          exact .instance hn hw (opensTo_of_requests hw.1) hd hfailed (attachesTo_of_requests hfailed.1)
      · simp only [List.append_assoc]
        exact .disk hn hw (opensTo_of_requests hw.1) (Supply.failed_of_trace hf)
    · have hfailed := Supply.failed_of_trace hf
      exact .firewall hn hfailed (opensTo_of_requests hfailed.1)
  · exact .network (Supply.failed_of_trace hf)

end Fleet
