import Fleet.Group
import Fleet.Proofs.Record.Client
import Fleet.Proofs.Record.Trace

/-!
# What a program may ask

Some statements about exchanges hold of a sequence when they hold of its parts (`Joinable`). Programs that leave such
exchanges in the record can be put one after the other (`Program.Leaves.bind`). One of them is that every question is
permitted (`Program.Asks`). When everything is permitted but deletions, a node can be brought up
(`Client.asks_createNode`); with the deletions of its instance and its disk, it can be taken down again.
-/

namespace Fleet

variable {S : Signature} {σ ι α β : Type}

/-- A statement about exchanges that holds of a sequence when it holds of its parts. The latest exchange comes first. -/
structure Joinable (Q : List (Exchange S) → Prop) : Prop where
  nil : Q []
  append : ∀ es es', Q es → Q es' → Q (es' ++ es)

namespace Program

/-- Whatever is answered, the program leaves exchanges in the record of which `Q` holds. -/
def Leaves (Q : List (Exchange S) → Prop) (p : Program S α) : Prop := p.Always fun _ es => Q es

/-- Whatever is answered, every question of the program is one of the permitted ones. -/
abbrev Asks (P : S.Query → Prop) (p : Program S α) : Prop := p.Leaves fun es => ∀ e ∈ es, P e.query

theorem joinable_asked (P : S.Query → Prop) : Joinable fun es : List (Exchange S) => ∀ e ∈ es, P e.query :=
  ⟨fun _ he => absurd he List.not_mem_nil, fun _ _ h h' e he => (List.mem_append.1 he).elim (h' e) (h e)⟩

variable {Q : List (Exchange S) → Prop}

theorem leaves_done (hQ : Joinable Q) (a : α) : (Program.done a : Program S α).Leaves Q := always_done.2 hQ.nil

theorem Leaves.bind (hQ : Joinable Q) {p : Program S α} (hp : p.Leaves Q) {f : α → Program S β}
    (hf : ∀ a, (f a).Leaves Q) : (p.bind f).Leaves Q :=
  always_bind.2 (hp.mono fun a es hes => (hf a).mono fun _ es' hes' => hQ.append es es' hes hes')

end Program

/-- Programs that are run side by side ask what each of them asks. -/
theorem runPool_asks [Service S σ] (width : Nat) {ps : List (Program S α)} {P : S.Query → Prop}
    (h : ∀ p ∈ ps, p.Asks P) (w : World S σ) :
    ∃ es, (runPool width ps w).2.record = es ++ w.record ∧ ∀ e ∈ es, P e.query := by
  classical
  -- The programs are known by their places.
  obtain ⟨rs, calls, -, hperm, hcalls, hlabels, htraces⟩ := runPool_traces width (nodup_zipIdx ps) Prod.fst w
  rw [List.zipIdx_map_fst] at hcalls
  refine ⟨_, hcalls, fun e he => ?_⟩
  obtain ⟨c, hc, rfl⟩ := List.mem_map.1 he
  obtain ⟨r, hr, hname⟩ := List.mem_map.1 (hperm.mem_iff.2 (hlabels c hc))
  obtain ⟨t, t', _, _, -, -, -, htrace⟩ := htraces r hr
  have hprogram : r.1.1 ∈ ps := List.fst_mem_of_mem_zipIdx (hname ▸ hlabels c hc)
  have hmem : c.2 ∈ callsOf r.1 calls := List.mem_map.2 ⟨c, List.mem_filter.2 ⟨hc, by simp [hname]⟩, rfl⟩
  exact (h _ hprogram).trace htrace.of_told c.2 hmem

/-! ### Actions -/

namespace Action

variable {Q : List (Exchange Cloud) → Prop} (hQ : Joinable Q)

include hQ

theorem leaves_pure (v : α) : (pure v : Action α).run.Leaves Q := Program.leaves_done hQ _

theorem leaves_throw (f : Failure) : (throw f : Action α).run.Leaves Q := Program.leaves_done hQ _

theorem leaves_bind {a : Action α} (ha : a.run.Leaves Q) {k : α → Action β} (hk : ∀ v, (k v).run.Leaves Q) :
    (a >>= k).run.Leaves Q := by
  refine Program.Leaves.bind hQ ha fun r => ?_
  cases r with
  | ok v => exact hk v
  | error f => exact Program.leaves_done hQ _

/-- The first two of three actions may be taken together. -/
theorem leaves_bind_bind {γ : Type} {a : Action α} {b : α → Action β} (hab : (a >>= b).run.Leaves Q) {k : β → Action γ}
    (hk : ∀ v, (k v).run.Leaves Q) : (a >>= fun x => b x >>= k).run.Leaves Q := by
  refine always_bind ((Program.always_bind.1 hab).mono fun r es hr => ?_)
  cases r with
  | error f => exact Program.always_done.1 hr
  | ok x =>
    refine always_bind (Program.Always.mono hr fun r es' hes' => ?_)
    cases r with
    | error f => exact hes'
    | ok v =>
      refine (hk v).mono fun _ es'' hes'' => ?_
      rw [List.append_assoc]
      exact hQ.append _ _ hes' hes''

theorem leaves_outcome {a : Action α} (ha : a.run.Leaves Q) : a.outcome.run.Leaves Q :=
  Program.Leaves.bind hQ ha fun _ => Program.leaves_done hQ _

theorem leaves_lift {p : Program Cloud α} (hp : p.Leaves Q) {k : α → Action β} (hk : ∀ v, (k v).run.Leaves Q) :
    (ExceptT.lift p >>= k).run.Leaves Q := leaves_bind hQ (hp.bind hQ fun _ => Program.leaves_done hQ _) hk

end Action

namespace Client

open Action Program

variable {P : Call → Prop} (c : Client)

/-- Questions of a client that are permitted. -/
private theorem asked (P : Call → Prop) : Joinable fun es : List (Exchange Cloud) => ∀ e ∈ es, P e.query :=
  joinable_asked (S := Cloud) P

theorem asks_send {call : Call} (h : P call) : (c.send call).run.Asks P :=
  (c.always_send call).mono fun _ _ hs e he => (hs.query_eq e he).symm ▸ h

theorem asks_awaitDone {h : OperationHandle} (hP : P (.operation h)) : (c.awaitDone h).run.Asks P :=
  (c.always_awaitDone h).mono fun _ _ hw e he => (hw.query_eq e he).symm ▸ hP

theorem asks_fetch? {kind : Kind} {scope : Scope} {name : String} (h : P (.get kind scope name)) :
    (c.fetch? kind scope name).run.Asks P :=
  (c.always_fetch? kind scope name).mono fun _ _ hq e he => (hq e he).symm ▸ h

theorem asks_fetch {kind : Kind} {scope : Scope} {name : String} (h : P (.get kind scope name)) :
    (c.fetch kind scope name).run.Asks P := by
  refine leaves_bind (asked P) (c.asks_fetch? h) fun r => ?_
  cases r with
  | none => exact leaves_throw (asked P) _
  | some a => exact leaves_pure (asked P) a

theorem asks_deleteIfExists {kind : Kind} {scope : Scope} {name : String} (hdelete : P (.delete kind scope name))
    (hoperation : ∀ h, P (.operation h)) : (c.deleteIfExists kind scope name).run.Asks P := by
  refine (c.always_deleteIfExists kind scope name).mono fun _ _ ha e he => ?_
  rcases ha.query_eq e he with hq | ⟨h, hq⟩
  · exact hq.symm ▸ hdelete
  · exact hq.symm ▸ hoperation h

/-! ### Where everything but deletions is permitted -/

section Constructive

variable (hP : ∀ call : Call, (∀ kind scope name, call ≠ .delete kind scope name) → P call)

include hP

theorem asks_list (kind : Kind) (filter : Filter) : (c.list kind filter).run.Asks P :=
  (c.always_list kind filter).mono fun _ _ h e he => (h e he).symm ▸ hP _ (by simp)

/-- A request for a change that is waited for. -/
private theorem asks_change {a : Action OperationHandle} (ha : a.run.Asks P) :
    (do
      let h ← a
      c.awaitDone h : Action Summary).outcome.run.Asks P :=
  leaves_outcome (asked P) (leaves_bind (asked P) ha fun h => c.asks_awaitDone (hP _ (by simp)))

private theorem asks_create (kind : Kind) (scope : Scope) (spec : ResourceSpec) :
    (c.create kind scope spec).run.Asks P := by
  unfold create
  by_cases hkind : spec.kind ≠ kind
  · rw [if_pos hkind]
    exact leaves_done (asked P) _
  rw [if_neg hkind]
  have hcounted : (c.retry.retryCounted (Action.call (.insert scope spec)).run).Asks P :=
    (c.always_retryCounted (.insert scope spec)).mono fun _ _ h e he => (h.1.query_eq e he).symm ▸ hP _ (by simp)
  refine leaves_lift (asked P) hcounted fun (submitted, attempts) => ?_
  have hfailed (f : Failure) : (if f.isAlreadyExists = true ∧ 1 < attempts then c.fetch kind scope spec.name
      else throw f : Action kind.Record).run.Asks P := by
    split
    · exact c.asks_fetch (hP _ (by simp))
    · exact leaves_throw (asked P) f
  cases submitted with
  | error f => exact hfailed f
  | ok h =>
    have hwaited : (c.awaitDone h).run.Asks P := c.asks_awaitDone (hP _ (by simp))
    refine leaves_bind (asked P) (leaves_outcome (asked P) hwaited) fun r => ?_
    cases r with
    | ok v => exact c.asks_fetch (hP _ (by simp))
    | error f => exact hfailed f

private theorem asks_ensure (kind : Kind) (scope : Scope) (name : String) (spec : ResourceSpec) :
    (c.ensure kind scope name spec).run.Asks P := by
  have hcreated : (c.createShared kind scope name spec).run.Asks P := by
    refine leaves_bind (asked P) (c.asks_change hP (c.asks_send (hP (.insert scope spec) (by simp)))) fun r => ?_
    cases r with
    | ok v => exact c.asks_fetch (hP _ (by simp))
    | error f =>
      show (if f.isAlreadyExists = true then _ else throw f : Action _).run.Asks P
      split
      · exact c.asks_fetch (hP _ (by simp))
      · exact leaves_throw (asked P) f
  have hnoting : (c.ensureNoting kind scope name spec).Asks P := by
    refine Leaves.bind (asked P) (c.asks_fetch? (hP _ (by simp))) fun r => ?_
    rcases r with f | _ | a
    · exact leaves_done (asked P) _
    · exact Leaves.bind (asked P) hcreated fun _ => leaves_done (asked P) _
    · exact leaves_done (asked P) _
  exact Leaves.bind (asked P) hnoting fun _ => leaves_done (asked P) _

private theorem asks_setTagsOnce (zone : Scope) (name : String) (wanted : List String) :
    (c.setTagsOnce zone name wanted).run.Asks P := by
  unfold setTagsOnce
  refine leaves_bind (asked P) (c.asks_fetch (hP _ (by simp))) fun i => ?_
  split
  · exact leaves_pure (asked P) _
  · refine leaves_bind (asked P) (c.asks_change hP (c.asks_send (hP (.setTags .instance zone name _) (by simp))))
      fun r => ?_
    cases r with
    | ok v => exact leaves_bind (asked P) (c.asks_fetch (hP _ (by simp))) fun i' => leaves_pure (asked P) _
    | error f =>
      show (if f.isConflict = true then pure (.inr f) else throw f : Action (Instance ⊕ Failure)).run.Asks P
      split
      · exact leaves_pure (asked P) _
      · exact leaves_throw (asked P) f

private theorem asks_setTags (zone : Scope) (name : String) (wanted : List String) :
    (c.setTags zone name wanted).run.Asks P := by
  unfold setTags
  refine leaves_bind (asked P) (c.asks_setTagsOnce hP zone name wanted) fun r => ?_
  rcases r with i | f
  · exact leaves_pure (asked P) i
  refine leaves_bind (asked P) (c.asks_setTagsOnce hP zone name wanted) fun r => ?_
  rcases r with i | f
  · exact leaves_pure (asked P) i
  · exact leaves_throw (asked P) _

theorem asks_createNode (s : NodeSpec) : (c.createNode s).run.Asks P := by
  unfold createNode
  refine leaves_bind (asked P) (c.asks_ensure hP .network .global s.network _) fun n => ?_
  refine leaves_bind (asked P) (c.asks_ensure hP .firewall .global s.firewallName _) fun _ => ?_
  refine leaves_bind (asked P) (c.asks_create hP .disk (.zone s.zone) _) fun d => ?_
  refine leaves_bind (asked P) (c.asks_create hP .instance (.zone s.zone) _) fun i => ?_
  exact c.asks_setTags hP (.zone s.zone) i.name s.desiredTags

/-- A node is taken down by deletions of its instance and of its disk. -/
theorem asks_destroy {i : Instance} (hinstance : P (.delete .instance (.zone i.zone) i.name))
    (hdisk : P (.delete .disk (.zone i.zone) i.bootDiskName)) : (c.destroy i).run.Asks P := by
  unfold destroy
  refine leaves_bind (asked P) (c.asks_deleteIfExists hinstance fun h => hP _ (by simp)) fun _ => ?_
  split
  · exact leaves_pure (asked P) _
  · refine leaves_bind (asked P) (c.asks_deleteIfExists hdisk fun h => hP _ (by simp)) fun _ => ?_
    exact leaves_pure (asked P) _

end Constructive

end Client

end Fleet
