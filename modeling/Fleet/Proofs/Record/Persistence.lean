import Fleet.Proofs.Record.Course

/-!
# The requests of a client

Every operation of a client is one request after the other (`Course`), whatever the platform answers. Each operation has
its rule here, which says which call it begins with and what is known of the latest exchange when it is over: this is
what an operation that comes after it needs in order not to repeat a call.
-/

namespace Fleet

variable {α β : Type} {limit : Nat} {past now : List (Exchange Cloud)}

/-- A resource has been read. -/
def JustRead (kind : Kind) (scope : Scope) (name : String) (now : List (Exchange Cloud)) : Prop :=
  ∃ t r rest, now = ⟨t, .get kind scope name, .ok (some r)⟩ :: rest

/-- Resources have been listed. -/
def JustListed (kind : Kind) (filter : Filter) (as : List kind.Record) (now : List (Exchange Cloud)) : Prop :=
  ∃ t rs rest, now = ⟨t, .list kind filter, .ok rs⟩ :: rest ∧ rs.mapM (Resource.ofKind? kind) = .ok as

/-- The latest exchange is about an operation, or it is a request for a deletion. -/
def LastDeleting (kind : Kind) (scope : Scope) (name : String) : List (Exchange Cloud) → Prop :=
  LastAsked fun q => q = .delete kind scope name ∨ ∃ h, q = .operation h

/-- The latest exchange is about an operation, or it is a request for a deletion of any kind. -/
def LastTakingDown : List (Exchange Cloud) → Prop :=
  LastAsked fun q => (∃ kind scope name, q = .delete kind scope name) ∨ ∃ h, q = .operation h

section Latest

variable {kind : Kind} {scope : Scope} {name : String}

theorem JustRead.lastAsked (h : JustRead kind scope name now) : LastAsked (· = .get kind scope name) now := by
  obtain ⟨t, r, rest, rfl⟩ := h
  intro e he
  cases he
  rfl

theorem LastDeleting.lastTakingDown (h : LastDeleting kind scope name now) : LastTakingDown now :=
  LastAsked.mono h fun _ hq => hq.imp_left fun hq => ⟨kind, scope, name, hq⟩

/-- When a resource has been read, any other call may be made. -/
theorem JustRead.warranted (h : JustRead kind scope name now) {call : Call} (hcall : call ≠ .get kind scope name) :
    Warranted now call :=
  h.lastAsked.warranted_of_read (fun q hq => by rw [hq]; rfl) hcall

end Latest

private theorem backed_of_ofKind? {kind : Kind} {r : Resource} {f : Failure}
    (h : Resource.ofKind? kind r = .error f) : f.Backed past := by
  cases kind <;> cases r <;> cases h <;> trivial

namespace Client

open Action

variable (c : Client)

theorem persists_send {call : Call} (hcall : Warranted past call) :
    (c.send call).Persists c.retry.limit past (fun v => Closes call (.ok v)) fun f => Closes call (.error f) := by
  refine (c.always_send_request call).mono fun r es h => ⟨h.course hcall, ?_⟩
  cases r with
  | ok v => exact h.closes
  | error f => exact h.closes

/-! ### Waiting for operations -/

private theorem persists_snapshot {h : OperationHandle} (hcall : Warranted past (.operation h)) :
    (c.snapshot h).Persists c.retry.limit past (fun o now => ∃ t rest, now = ⟨t, .operation h, .ok o⟩ :: rest)
      fun _ => LastAsked (· = .operation h) := by
  refine Program.Persists.bind (c.persists_send hcall) fun r now hr => ?_
  cases r with
  | ok o => exact .inl ⟨not_tellsAttempts_ok, .done backed_ok hr.eq_cons_of_ok⟩
  | error f =>
    have hlast : LastAsked (· = .operation h) now := Closes.lastAsked hr
    by_cases hmissing : f.isNotFound = true
    · refine .inl ⟨fun g hg => ?_, ?_⟩
      · cases hg
        exact Failure.not_tellsAttempts Failure.isNotFound (fun _ _ => rfl) hmissing
      · -- That the record is missing is a failure of the client's own.
        show Program.Persists _ _ _ _ (if f.isNotFound = true then _ else _)
        rw [if_pos hmissing]
        exact .done (fun g hg => by cases hg; trivial) hlast
    · exact .inr ⟨f, .error f, rfl, if_neg hmissing, rfl, hlast⟩

private theorem backed_settled {h : OperationHandle} {o : Operation} {f : Failure} (hf : settled h o = .error f) :
    f.Backed past := by
  unfold settled at hf
  split at hf
  · cases hf
    trivial
  · cases hf

/-- What is known when an operation has been asked for. -/
private abbrev LastPolled (h : OperationHandle) : List (Exchange Cloud) → Prop := LastAsked (· = .operation h)

private theorem persists_awaitFrom (h : OperationHandle) (started deadline fuel poll : Nat)
    (hcall : Warranted past (.operation h)) :
    (c.awaitFrom h started deadline fuel poll).Persists c.retry.limit past (fun _ => LastPolled h)
      fun _ => LastPolled h := by
  -- One poll, with whatever comes after it when the operation is still running.
  have polled {past : List (Exchange Cloud)} (hcall : Warranted past (.operation h)) {next : Nat → Action Summary}
      (hnext : ∀ now t rest o, o.isDone = false → (next now).Persists c.retry.limit (⟨t, .operation h, .ok o⟩ :: rest)
        (fun _ => LastPolled h) fun _ => LastPolled h) :
      Action.Persists c.retry.limit past (fun _ => LastPolled h) (fun _ => LastPolled h) (do
        let o ← c.snapshot h
        if o.isDone then ExceptT.mk (.done (settled h o))
        else
          let now ← ExceptT.lift Program.now
          next now) := by
    refine (c.persists_snapshot hcall).bind fun o now hnow => ?_
    obtain ⟨t, rest, rfl⟩ := hnow
    have hlast : LastPolled h (⟨t, .operation h, .ok o⟩ :: rest) := fun e he => by cases he; rfl
    by_cases hdone : o.isDone = true
    · rw [if_pos hdone]
      refine persists_result (fun f hf => backed_settled hf) ?_
      cases settled h o <;> exact hlast
    · rw [if_neg hdone]
      exact persists_now fun now => hnext now t rest o (Bool.eq_false_iff.2 hdone)
  have hlast (t : Nat) (o : Operation) (rest : List (Exchange Cloud)) :
      LastPolled h (⟨t, .operation h, .ok o⟩ :: rest) := fun e he => by cases he; rfl
  induction fuel generalizing poll past with
  | zero =>
    unfold awaitFrom
    refine polled hcall fun now t rest o ho => ?_
    split <;> exact persists_throw trivial (hlast t o rest)
  | succ fuel ih =>
    unfold awaitFrom
    refine polled hcall fun now t rest o ho => ?_
    split
    · exact persists_throw trivial (hlast t o rest)
    · -- The operation is asked for again because it is running.
      refine .sleep (ih (poll + 1) fun e he hquery => ?_)
      exact .running ho

-- The fuel is a large number that must not be computed with, so it is a variable here.
private theorem persists_clock (h : OperationHandle) (ms fuel : Nat) (hcall : Warranted past (.operation h)) :
    Program.Persists c.retry.limit past id (ByOutcome (fun _ => LastPolled h) fun _ => LastPolled h)
      (.clock fun started => (c.awaitFrom h started (started + ms) fuel 0).run) :=
  .clock fun started => c.persists_awaitFrom h started (started + ms) fuel 0 hcall

theorem persists_awaitDoneWithin {h : OperationHandle} (hcall : Warranted past (.operation h)) (timeoutMs : Nat) :
    (c.awaitDoneWithin h timeoutMs).Persists c.retry.limit past (fun _ => LastAsked (· = .operation h))
      fun _ => LastAsked (· = .operation h) := by
  rw [Action.Persists, run_awaitDoneWithin]
  exact c.persists_clock h _ _ hcall

theorem persists_awaitDone {h : OperationHandle} (hcall : Warranted past (.operation h)) :
    (c.awaitDone h).Persists c.retry.limit past (fun _ => LastAsked (· = .operation h))
      fun _ => LastAsked (· = .operation h) := c.persists_awaitDoneWithin hcall c.poll.timeoutMs

/-! ### Reading -/

theorem persists_fetch? {kind : Kind} {scope : Scope} {name : String} (hcall : Warranted past (.get kind scope name)) :
    (c.fetch? kind scope name).Persists c.retry.limit past
      (fun a now => LastAsked (· = .get kind scope name) now ∧ (a ≠ none → JustRead kind scope name now))
      fun _ => LastAsked (· = .get kind scope name) := by
  refine ((c.persists_send hcall).mono (fun _ _ h => h) fun _ _ h => h.lastAsked).bind fun r now hr => ?_
  cases r with
  | none => exact persists_pure ⟨hr.lastAsked, fun h => absurd rfl h⟩
  | some r =>
    obtain ⟨t, rest, rfl⟩ := hr.eq_cons_of_ok
    have hread : JustRead kind scope name (⟨t, .get kind scope name, .ok (some r)⟩ :: rest) := ⟨t, r, rest, rfl⟩
    show Action.Persists _ _ _ _ (ExceptT.mk (.done ((Resource.ofKind? kind r).map some)))
    cases ha : Resource.ofKind? kind r with
    | ok a => exact persists_result backed_ok ⟨hread.lastAsked, fun _ => hread⟩
    | error f =>
      refine persists_result (fun g hg => ?_) hread.lastAsked
      cases hg
      exact backed_of_ofKind? ha

theorem persists_fetch {kind : Kind} {scope : Scope} {name : String} (hcall : Warranted past (.get kind scope name)) :
    (c.fetch kind scope name).Persists c.retry.limit past (fun _ => JustRead kind scope name)
      fun _ => LastAsked (· = .get kind scope name) := by
  refine (c.persists_fetch? hcall).bind fun a now ha => ?_
  cases a with
  | none => exact persists_throw trivial ha.1
  | some a => exact persists_pure (ha.2 (by simp))

theorem persists_list {kind : Kind} {filter : Filter} (hcall : Warranted past (.list kind filter)) :
    (c.list kind filter).Persists c.retry.limit past (JustListed kind filter)
      fun _ => LastAsked (· = .list kind filter) := by
  refine ((c.persists_send hcall).mono (fun _ _ h => h) fun _ _ h => h.lastAsked).bind fun rs now hrs => ?_
  have hlast : LastAsked (· = .list kind filter) now := Closes.lastAsked hrs
  obtain ⟨t, rest, rfl⟩ := hrs.eq_cons_of_ok
  cases has : rs.mapM (Resource.ofKind? kind) with
  | ok as => exact persists_result backed_ok ⟨t, rs, rest, rfl, has⟩
  | error f =>
    refine persists_result (fun g hg => ?_) hlast
    cases hg
    obtain ⟨r, -, hr⟩ := Resource.exists_of_mapM_ofKind? has
    exact backed_of_ofKind? hr

/-! ### Changing -/

private theorem not_tellsAttempts_of_isAlreadyExists {f : Failure} (hf : f.isAlreadyExists = true) :
    ¬ f.TellsAttempts := Failure.not_tellsAttempts Failure.isAlreadyExists (fun _ _ => rfl) hf

/-- A request was accepted, and the operation is asked for next. -/
private theorem warranted_operation {call : Call} {v : call.Value} {h : OperationHandle}
    (hclosed : Closes call (.ok v) now) (hcall : call ≠ .operation h) : Warranted now (.operation h) :=
  hclosed.lastAsked.warranted (fun heq => hcall heq.symm) rfl

theorem persists_create {kind : Kind} {scope : Scope} {spec : ResourceSpec}
    (hcall : Warranted past (.insert scope spec)) :
    (c.create kind scope spec).Persists c.retry.limit past (fun _ => JustRead kind scope spec.name)
      fun _ _ => True := by
  unfold create
  by_cases hkind : spec.kind ≠ kind
  · rw [if_pos hkind]
    exact Program.Persists.done (fun f hf => by cases hf; trivial) trivial
  rw [if_neg hkind]
  have hfetch {now : List (Exchange Cloud)} (hnow : LastAsked (· ≠ .get kind scope spec.name) now) :
      (c.fetch kind scope spec.name).Persists c.retry.limit now (fun _ => JustRead kind scope spec.name)
        fun _ _ => True :=
    (c.persists_fetch (hnow.warranted (fun h => h rfl) rfl)).mono (fun _ _ h => h) fun _ _ _ => trivial
  -- After a failure the resource may be read all the same.
  have hfailed {f : Failure} {n : Nat} {now : List (Exchange Cloud)}
      (hnow : LastAsked (· ≠ .get kind scope spec.name) now) :=
    rescue_ite (fun h : f.isAlreadyExists = true ∧ 1 < n => not_tellsAttempts_of_isAlreadyExists h.1)
      (fun _ => hfetch hnow) trivial
  refine persists_counted hcall (fun h n now hclosed => ?_) fun f n now hclosed => ?_
  · have hoperation : Warranted now (.operation h) := warranted_operation hclosed (by simp)
    refine (c.persists_awaitDone hoperation).rescue (fun v now hnow => ?_) fun f now hnow => ?_
    · exact hfetch (hnow.mono fun q hq => by simp [hq])
    · exact hfailed (hnow.mono fun q hq => by simp [hq])
  · exact hfailed (hclosed.lastAsked.mono fun q hq => by simp [hq])

theorem persists_delete {kind : Kind} {scope : Scope} {name : String}
    (hcall : Warranted past (.delete kind scope name)) :
    (c.delete kind scope name).Persists c.retry.limit past (fun _ => LastDeleting kind scope name)
      fun _ => LastDeleting kind scope name := by
  have hrequest := c.persists_send hcall
  refine (hrequest.mono (fun _ _ h => h) fun _ _ h => h.lastAsked.mono fun q hq => .inl hq).bind fun h now hclosed => ?_
  have hpolled {now : List (Exchange Cloud)} (hlast : LastAsked (· = .operation h) now) :
      LastDeleting kind scope name now := hlast.mono fun q hq => .inr ⟨h, hq⟩
  refine Program.Persists.bind (c.persists_awaitDone (warranted_operation hclosed (by simp))) fun r now hr => ?_
  cases r with
  | ok v => exact .inl ⟨not_tellsAttempts_ok, .done backed_ok (hpolled hr)⟩
  | error f => exact .inr ⟨f, .error f, rfl, rfl, rfl, hpolled hr⟩

theorem persists_deleteIfExists {kind : Kind} {scope : Scope} {name : String}
    (hcall : Warranted past (.delete kind scope name)) :
    (c.deleteIfExists kind scope name).Persists c.retry.limit past (fun _ => LastDeleting kind scope name)
      fun _ => LastDeleting kind scope name := by
  refine (c.persists_delete hcall).rescue (fun v now hnow => persists_pure hnow) fun f now hnow => ?_
  exact rescue_ite (Failure.not_tellsAttempts Failure.isNotFound fun _ _ => rfl) (fun _ => persists_pure hnow) hnow

theorem persists_update {kind : Kind} {scope : Scope} {name : String} {tags : Tags}
    (hcall : Warranted past (.setTags kind scope name tags)) :
    (c.update kind scope name tags).Persists c.retry.limit past
      (fun _ => LastAsked fun q => q = .setTags kind scope name tags ∨ ∃ h, q = .operation h)
      fun _ => LastAsked fun q => q = .setTags kind scope name tags ∨ ∃ h, q = .operation h := by
  refine ((c.persists_send hcall).mono (fun _ _ h => h) fun _ _ h => h.lastAsked.mono fun q hq => .inl hq).bind
    fun h now hclosed => ?_
  exact (c.persists_awaitDone (warranted_operation hclosed (by simp))).mono
    (fun _ _ hnow => hnow.mono fun q hq => .inr ⟨h, hq⟩) fun _ _ hnow => hnow.mono fun q hq => .inr ⟨h, hq⟩

private theorem persists_createShared (kind : Kind) {scope : Scope} (name : String) {spec : ResourceSpec}
    (hcall : Warranted past (.insert scope spec)) :
    (c.createShared kind scope name spec).Persists c.retry.limit past (fun _ => JustRead kind scope name)
      fun _ _ => True := by
  have hcreated : (c.submitInsert scope spec >>= c.awaitDone).Persists c.retry.limit past
      (fun _ => LastAsked (· ≠ .get kind scope name)) fun _ => LastAsked (· ≠ .get kind scope name) := by
    refine ((c.persists_send hcall).mono (fun _ _ h => h) fun _ _ h => h.lastAsked.mono fun q hq => by simp [hq]).bind
      fun h now hclosed => ?_
    exact (c.persists_awaitDone (warranted_operation hclosed (by simp))).mono
      (fun _ _ hnow => hnow.mono fun q hq => by simp [hq]) fun _ _ hnow => hnow.mono fun q hq => by simp [hq]
  have hfetch {now : List (Exchange Cloud)} (hnow : LastAsked (· ≠ .get kind scope name) now) :
      (c.fetch kind scope name).Persists c.retry.limit now (fun _ => JustRead kind scope name) fun _ _ => True :=
    (c.persists_fetch (hnow.warranted (fun h => h rfl) rfl)).mono (fun _ _ h => h) fun _ _ _ => trivial
  refine hcreated.rescue (fun v now hnow => hfetch hnow) fun f now hnow => ?_
  exact rescue_ite not_tellsAttempts_of_isAlreadyExists (fun _ => hfetch hnow) trivial

theorem persists_ensure {kind : Kind} {scope : Scope} {name : String} {spec : ResourceSpec}
    (hcall : Warranted past (.get kind scope name)) :
    (c.ensure kind scope name spec).Persists c.retry.limit past (fun _ => JustRead kind scope name)
      fun _ _ => True := by
  have hnoting : (c.ensureNoting kind scope name spec).Persists c.retry.limit past (·.1)
      fun r => ByOutcome (fun _ => JustRead kind scope name) (fun _ _ => True) r.1 := by
    refine Program.Persists.bind (c.persists_fetch? hcall) fun r now hr => ?_
    rcases r with f | _ | a
    · exact .inr ⟨f, (.error f, false), rfl, rfl, rfl, trivial⟩
    · refine .inl ⟨not_tellsAttempts_ok, ?_⟩
      have hinsert : Warranted now (.insert scope spec) :=
        hr.1.warranted_of_read (fun q hq => by rw [hq]; rfl) (by simp)
      refine Program.Persists.bind (c.persists_createShared kind name hinsert) fun r now hr => ?_
      cases r with
      | ok a => exact .inl ⟨not_tellsAttempts_ok, .done backed_ok hr⟩
      | error f => exact .inr ⟨f, (.error f, true), rfl, rfl, rfl, trivial⟩
    · exact .inl ⟨not_tellsAttempts_ok, .done backed_ok (hr.2 (by simp))⟩
  refine Program.Persists.bind hnoting fun r now hr => ?_
  obtain ⟨f | a, noted⟩ := r
  · exact .inr ⟨f, .error f, rfl, rfl, rfl, trivial⟩
  · exact .inl ⟨not_tellsAttempts_ok, .done backed_ok hr⟩

/-! ### Nodes -/

private theorem persists_setTagsOnce {zone : Scope} {name : String} (wanted : List String)
    (hcall : Warranted past (.get .instance zone name)) :
    (c.setTagsOnce zone name wanted).Persists c.retry.limit past
      (fun r now => (∃ f, r = .inr f) → LastAsked (· ≠ .get .instance zone name) now) fun _ _ => True := by
  unfold setTagsOnce
  refine ((c.persists_fetch hcall).mono (fun _ _ h => h) fun _ _ _ => trivial).bind fun i now hread => ?_
  by_cases hall : i.tags.containsAll wanted = true
  · rw [if_pos hall]
    exact persists_pure fun ⟨f, hf⟩ => by cases hf
  rw [if_neg hall]
  have hcall : Warranted now (.setTags .instance zone name ⟨Tags.merged i.tags.items wanted, i.tags.fingerprint⟩) :=
    hread.warranted (by simp)
  have hupdate := c.persists_update hcall
  have hother {now : List (Exchange Cloud)} (hnow : LastAsked (fun q => q = .setTags .instance zone name
      ⟨Tags.merged i.tags.items wanted, i.tags.fingerprint⟩ ∨ ∃ h, q = .operation h) now) :
      LastAsked (· ≠ .get .instance zone name) now := by
    refine hnow.mono fun q hq => ?_
    rcases hq with rfl | ⟨h, rfl⟩ <;> simp
  refine hupdate.rescue (fun v now hnow => ?_) fun f now hnow => ?_
  · have hfetch := c.persists_fetch ((hother hnow).warranted (fun h => h rfl) rfl)
    refine (hfetch.mono (fun _ _ h => h) fun _ _ _ => trivial).bind fun i' now' _ => ?_
    exact persists_pure fun ⟨f, hf⟩ => by cases hf
  · refine rescue_ite (Failure.not_tellsAttempts Failure.isConflict fun _ _ => rfl) (fun _ => ?_) trivial
    exact persists_pure fun _ => hother hnow

theorem persists_setTags {zone : Scope} {name : String} (wanted : List String)
    (hcall : Warranted past (.get .instance zone name)) :
    (c.setTags zone name wanted).Persists c.retry.limit past (fun _ _ => True) fun _ _ => True := by
  unfold setTags
  refine (c.persists_setTagsOnce wanted hcall).bind fun r now hr => ?_
  rcases r with i | f
  · exact persists_pure trivial
  have hagain : Warranted now (.get .instance zone name) := (hr ⟨f, rfl⟩).warranted (fun h => h rfl) rfl
  refine (c.persists_setTagsOnce wanted hagain).bind fun r now _ => ?_
  rcases r with i | f
  · exact persists_pure trivial
  · exact persists_throw trivial trivial

theorem persists_createNode (s : NodeSpec) :
    (c.createNode s).Persists c.retry.limit [] (fun _ _ => True) fun _ _ => True := by
  unfold createNode
  refine (c.persists_ensure warranted_nil).bind fun n now hn => ?_
  refine (c.persists_ensure (hn.warranted (by simp))).bind fun w now hw => ?_
  refine (c.persists_create (hw.warranted (by simp))).bind fun d now hd => ?_
  refine (c.persists_create (hd.warranted (by simp))).bind fun i now hi => ?_
  -- The instance that was created is read again for its tags.
  have hagain : Warranted now (.get .instance (.zone s.zone) i.name) := by
    obtain ⟨t, r, rest, rfl⟩ := hi
    intro e he hquery
    obtain rfl := List.mem_singleton.1 he
    rw [← hquery]
    exact .present
  exact c.persists_setTags s.desiredTags hagain

/-- A node is taken down before anything else is changed. -/
theorem persists_destroy {i : Instance} (hpast : ∀ e ∈ past, e.query.isMutation = false) :
    (c.destroy i).Persists c.retry.limit past (fun _ => LastTakingDown) fun _ => LastTakingDown := by
  have hunasked {call : Call} (hcall : call.isMutation = true) : ∀ e ∈ past, e.query ≠ call := by
    rintro e he rfl
    exact absurd hcall (by rw [hpast e he]; exact Bool.false_ne_true)
  have hother : (c.deleteIfExists .instance (.zone i.zone) i.name).run.Asks
      (· ≠ Call.delete .disk (.zone i.zone) i.bootDiskName) := c.asks_deleteIfExists (by simp) (by simp)
  have hinstance := (c.persists_deleteIfExists (warranted_of_unasked (hunasked rfl))).asked hother
  unfold destroy
  refine (hinstance.mono (fun _ _ h => h) fun _ _ h => h.1.lastTakingDown).bind fun _ now hnow => ?_
  have hdisk : Warranted now (.delete .disk (.zone i.zone) i.bootDiskName) :=
    warranted_of_unasked (hnow.2.forall (hunasked rfl))
  split
  · exact persists_pure hnow.1.lastTakingDown
  · refine ((c.persists_deleteIfExists hdisk).mono (fun _ _ h => h) fun _ _ h => h.lastTakingDown).bind
      fun _ now hnow => ?_
    exact persists_pure hnow.lastTakingDown

end Client

/-! ### Networks -/

/-- A listing of the instances of another network is called for as before. -/
def Elsewhere (link : String) (past now : List (Exchange Cloud)) : Prop :=
  ∀ l, l ≠ link → Warranted past (.list .instance (.onNetwork l)) → Warranted now (.list .instance (.onNetwork l))

/-- The firewalls on a network have been listed, and since then only those of them that are done have been deleted. -/
private def Purging (link : String) (done ws : List Firewall) (now : List (Exchange Cloud)) : Prop :=
  ∃ s rs since rest, now = since ++ ⟨s, .list .firewall (.onNetwork link), .ok rs⟩ :: rest ∧
    rs.map Resource.name = (done ++ ws).map (·.name) ∧
    ∀ e ∈ since, (∃ w ∈ done, e.query = .delete .firewall .global w.name) ∨ ∃ h, e.query = .operation h

section Networks

variable {link : String} {done ws : List Firewall} {w : Firewall}

private theorem LastAsked.elsewhere {C : Call → Prop} (h : LastAsked C now)
    (hC : ∀ l, l ≠ link → ¬ C (.list .instance (.onNetwork l))) : Elsewhere link past now :=
  fun l hl _ => h.warranted (hC l hl) rfl

private theorem LastTakingDown.elsewhere (h : LastTakingDown now) : Elsewhere link past now :=
  LastAsked.elsewhere h fun l _ hl => by simp at hl

private theorem list_onNetwork_ne {l : String} (h : l ≠ link) :
    Call.list .instance (.onNetwork l) ≠ .list .instance (.onNetwork link) := by
  intro heq
  simp only [Filter.onNetwork, Call.list.injEq, Filter.mk.injEq, Option.some.injEq] at heq
  exact h heq.2.2.1

/-- Deletions and looks at operations read no resources. -/
private theorem isRead_eq_false {q : Call}
    (h : (∃ w ∈ done, q = .delete .firewall .global w.name) ∨ ∃ h, q = .operation h) : q.isRead = false := by
  rcases h with ⟨w, -, rfl⟩ | ⟨h, rfl⟩ <;> rfl

/-- A firewall is deleted a second time only when it was listed twice. -/
private theorem Purging.warranted (h : Purging link done (w :: ws) now) :
    Warranted now (.delete .firewall .global w.name) := by
  obtain ⟨s, rs, since, rest, rfl, hrs, hsince⟩ := h
  have hreads : ∀ e ∈ since, e.query.isRead = false := fun e he => isRead_eq_false (hsince e he)
  refine warranted_of_unread rfl fun e he hquery => ?_
  rw [unread_append hreads rfl] at he
  rcases hsince e he with ⟨v, hv, hq⟩ | ⟨h, hq⟩
  · have hname : v.name = w.name := by
      rw [hquery] at hq
      simpa using hq.symm
    refine .listedTwice hreads (List.duplicate_iff_sublist.2 ?_)
    have hdone : [v.name].Sublist (done.map (·.name)) := List.singleton_sublist.2 (List.mem_map_of_mem hv)
    have hnext : [v.name].Sublist ((w :: ws).map (·.name)) := by
      rw [hname]
      exact List.singleton_sublist.2 (List.mem_map_of_mem List.mem_cons_self)
    rw [hrs, List.map_append, ← hname]
    exact hdone.append hnext
  · rw [hquery] at hq
    cases hq

private theorem Purging.next (h : Purging link done (w :: ws) past)
    (hnow : AskedSince (fun q => q = .delete .firewall .global w.name ∨ ∃ h, q = .operation h) past now) :
    Purging link (done ++ [w]) ws now := by
  obtain ⟨s, rs, since, rest, rfl, hrs, hsince⟩ := h
  obtain ⟨es, rfl, hes⟩ := hnow
  refine ⟨s, rs, es ++ since, rest, (List.append_assoc ..).symm, ?_, fun e he => ?_⟩
  · rwa [List.append_assoc]
  · rcases List.mem_append.1 he with he | he
    · exact (hes e he).imp_left fun hq => ⟨w, by simp, hq⟩
    · exact (hsince e he).imp_left fun ⟨v, hv, hq⟩ => ⟨v, List.mem_append_left _ hv, hq⟩

private theorem Purging.warranted_network (h : Purging link done ws now) (name : String) :
    Warranted now (.delete .network .global name) := by
  obtain ⟨s, rs, since, rest, rfl, -, hsince⟩ := h
  refine warranted_of_unread rfl fun e he hquery => ?_
  rw [unread_append (fun e he => isRead_eq_false (hsince e he)) rfl] at he
  rcases hsince e he with ⟨v, -, hq⟩ | ⟨h, hq⟩
  · rw [hquery] at hq
    cases hq
  · rw [hquery] at hq
    cases hq

private theorem JustListed.purging (h : JustListed .firewall (.onNetwork link) ws now) : Purging link [] ws now := by
  obtain ⟨t, rs, rest, rfl, hws⟩ := h
  refine ⟨t, rs, [], rest, rfl, ?_, fun e he => absurd he List.not_mem_nil⟩
  rw [Resource.eq_map_of_mapM_ofKind? hws, List.map_map]
  rfl

end Networks

namespace Client

open Action

variable (c : Client)

private theorem persists_remainingInstances {link : String} (excluding : List String)
    (hcall : Warranted past (.list .instance (.onNetwork link))) :
    (c.remainingInstances link excluding).Persists c.retry.limit past
      (fun _ => LastAsked (· = .list .instance (.onNetwork link)))
      fun _ => LastAsked (· = .list .instance (.onNetwork link)) := by
  refine (c.persists_list hcall).bind fun is now hnow => persists_pure ?_
  obtain ⟨t, rs, rest, rfl, -⟩ := hnow
  intro e he
  cases he
  rfl

private theorem persists_deleteFirewalls {link : String} (done ws : List Firewall)
    (hpast : Purging link done ws past) :
    (c.deleteFirewalls ws).Persists c.retry.limit past (fun _ => Purging link (done ++ ws) [])
      fun _ => LastTakingDown := by
  induction ws generalizing done past with
  | nil => exact persists_pure (by rwa [List.append_nil])
  | cons w ws ih =>
    have hasks : (c.deleteIfExists .firewall .global w.name).run.Asks
        fun q : Call => q = .delete .firewall .global w.name ∨ ∃ h, q = .operation h :=
      c.asks_deleteIfExists (.inl rfl) fun h => .inr ⟨h, rfl⟩
    have hdelete := (c.persists_deleteIfExists hpast.warranted).asked hasks
    refine (hdelete.mono (fun _ _ h => h) fun _ _ h => h.1.lastTakingDown).bind fun deleted now hnow => ?_
    refine (ih (done ++ [w]) (hpast.next hnow.2)).bind fun more now hnow => persists_pure ?_
    rwa [List.append_assoc] at hnow

theorem persists_reclaimShared {link : String} (excluding : List String)
    (hcall : Warranted past (.list .instance (.onNetwork link))) :
    (c.reclaimShared link excluding).Persists c.retry.limit past
      (fun o now => o.isFailed = false ∧ Elsewhere link past now) fun _ now => Elsewhere link past now := by
  have hcounted {now : List (Exchange Cloud)} (h : LastAsked (· = .list .instance (.onNetwork link)) now) :
      Elsewhere link past now := h.elsewhere fun l hl => list_onNetwork_ne hl
  unfold reclaimShared
  dsimp only
  split
  · exact persists_pure ⟨rfl, fun _ _ h => h⟩
  have hcount := c.persists_remainingInstances excluding hcall
  refine (hcount.mono (fun _ _ h => h) fun _ _ h => hcounted h).bind fun n now hnow => ?_
  split
  · exact persists_pure ⟨rfl, hcounted hnow⟩
  have hfirewalls : Warranted now (.list .firewall (.onNetwork link)) := hnow.warranted (by simp) rfl
  have hlist := c.persists_list hfirewalls
  refine (hlist.mono (fun _ _ h => h) fun _ _ h => h.elsewhere fun l _ hl => by simp at hl).bind fun ws now hws => ?_
  have hdelete := c.persists_deleteFirewalls [] ws hws.purging
  refine (hdelete.mono (fun _ _ h => h) fun _ _ h => h.elsewhere).bind fun deleted now hnow => ?_
  refine (c.persists_deleteIfExists (hnow.warranted_network (Link.name link))).rescue (fun found now hdeleting => ?_)
    fun f now hdeleting => ?_
  · refine persists_pure ⟨?_, hdeleting.lastTakingDown.elsewhere⟩
    split <;> rfl
  · refine rescue_ite (Failure.not_tellsAttempts Failure.isInUse fun _ _ => rfl) (fun _ => ?_)
      hdeleting.lastTakingDown.elsewhere
    have hinstances : Warranted now (.list .instance (.onNetwork link)) := hdeleting.warranted (by simp) rfl
    have hrecount := c.persists_remainingInstances excluding hinstances
    refine (hrecount.mono (fun _ _ h => h) fun _ _ h => hcounted h).bind fun m now hnow => ?_
    exact persists_pure ⟨rfl, hcounted hnow⟩

theorem persists_reclaimNetwork (name : String) :
    (c.reclaimNetwork name).Persists c.retry.limit [] (fun o _ => o.isFailed = false) fun _ _ => True := by
  refine ((c.persists_fetch? warranted_nil).mono (fun _ _ h => h) fun _ _ _ => trivial).bind fun n now hn => ?_
  cases n with
  | none => exact persists_pure rfl
  | some n =>
    have hlist : Warranted now (.list .instance (.onNetwork n.selfLink)) := hn.1.warranted (by simp) rfl
    exact (c.persists_reclaimShared [] hlist).mono (fun _ _ h => h.1) fun _ _ _ => trivial

end Client

end Fleet
